-- SUMMARY: The program refines the estate of every owner: each accepted instruction is a run of its steps.
import DeadMansVault.Estate.Basic
import DeadMansVault.Program.Footprint

/-!
# Refinement

For every owner `o`, an accepted instruction on the vault of `o` is a run of
steps of the estate of `o` whose movements are exactly the movements of the
instruction out of it; any other instruction, and the environment, interfere
with it once. A batch instruction is as many steps as it pays shares.
-/

namespace DeadMansVault

open World

variable {c : Cluster} {o : Pubkey} {s s' s'' : World}

/-! ## The estate through the writes -/

section View

@[simp] theorem estate_putVaultConfig (v : Option VaultConfig) :
    (s.putVaultConfig (.vault o) v).estate c o = { s.estate c o with config := v } := by
  simp [World.estate]

@[simp] theorem estate_putHeartbeatRecord (h : Option HeartbeatRecord) :
    (s.putHeartbeatRecord (.heartbeat (.vault o)) h).estate c o =
      { s.estate c o with heartbeat := h } := by
  simp [World.estate]

@[simp] theorem estate_putAssetPlan (p : Option AssetPlan) :
    (s.putAssetPlan (.assetPlan (.vault o)) p).estate c o = { s.estate c o with plan := p } := by
  simp [World.estate]

@[simp] theorem estate_putExecutionLog (l : Option ExecutionLog) :
    (s.putExecutionLog (.execution (.vault o)) l).estate c o = { s.estate c o with log := l } := by
  simp [World.estate]

@[simp] theorem estate_putTokenDist (m : Pubkey) (d : Option TokenDist) :
    (s.putTokenDist (.tokenDist (.vault o) m) d).estate c o =
      { s.estate c o with dists := Function.update (s.estate c o).dists m d } := by
  simp only [World.estate, putTokenDist_now, putTokenDist_vaultConfigs,
    putTokenDist_heartbeatRecords, putTokenDist_assetPlans, putTokenDist_executionLogs,
    putTokenDist_tokenDists, putTokenDist_lamports, putTokenDist_tokenAmounts]
  congr 1
  funext m'
  by_cases h : m' = m
  · simp [h]
  · simp [h]

@[simp] theorem estate_dropTokenAccount (k : Pubkey) :
    (s.dropTokenAccount k).estate c o = s.estate c o := rfl

/-- Lamports that do not come from the vault only add to it. -/
theorem estate_sendLamports_of_ne {source dest : Pubkey} {n : Nat} {purpose : Purpose}
    (hs : source ≠ .vault o) (hd : dest ≠ .vault o) :
    (s.sendLamports source dest n purpose).estate c o = s.estate c o := by
  simp [World.estate, Ledger.move_of_ne hs.symm hd.symm]

theorem estate_sendLamports_to {source : Pubkey} {n : Nat} {purpose : Purpose}
    (hs : source ≠ .vault o) :
    (s.sendLamports source (.vault o) n purpose).estate c o =
      { s.estate c o with lamports := (s.estate c o).lamports + n } := by
  simp [World.estate, Ledger.move_dest hs.symm]

theorem estate_sendLamports_from {dest : Pubkey} {n : Nat} {purpose : Purpose}
    (hd : dest ≠ .vault o) :
    (s.sendLamports (.vault o) dest n purpose).estate c o =
      { s.estate c o with lamports := (s.estate c o).lamports - n } := by
  simp [World.estate, Ledger.move_source hd.symm]

theorem estate_paySol {dest : Pubkey} {n : Nat} {purpose : Purpose} (hd : dest ≠ .vault o) :
    (s.paySol (.vault o) dest n purpose).estate c o =
      { s.estate c o with lamports := (s.estate c o).lamports - n } := by
  simp [World.estate, Ledger.move_source hd.symm]

theorem estate_payTokens {m dest recipient : Pubkey} {n : Nat} {purpose : Purpose}
    (hd : ∀ m', dest ≠ canonicalAta c (.vault o) m') :
    (s.payTokens (canonicalAta c (.vault o) m) m dest recipient n purpose).estate c o =
      { s.estate c o with
        holding := Function.update (s.estate c o).holding m ((s.estate c o).holding m - n) } := by
  simp only [World.estate, payTokens_now, payTokens_vaultConfigs, payTokens_heartbeatRecords,
    payTokens_assetPlans, payTokens_executionLogs, payTokens_tokenDists, payTokens_lamports,
    payTokens_tokenAmounts]
  congr 1
  funext m'
  by_cases h : m' = m
  · subst h
    simp [Ledger.move_source (hd m').symm]
  · have hne : canonicalAta c (.vault o) m' ≠ canonicalAta c (.vault o) m := by
      simp [canonicalAta, h]
    simp [h, Ledger.move_of_ne hne (hd m').symm]

/-- Of all canonical accounts, a payment of tokens reaches at most its own source. -/
theorem estate_payTokens_any {m dest recipient : Pubkey} {n : Nat} {purpose : Purpose}
    (hd : dest = canonicalAta c (.vault o) m ∨ ∀ m', dest ≠ canonicalAta c (.vault o) m')
    (hn : n ≤ s.tokenAmounts (canonicalAta c (.vault o) m)) :
    (s.payTokens (canonicalAta c (.vault o) m) m dest recipient n purpose).estate c o =
      { s.estate c o with
        holding := Function.update (s.estate c o).holding m
          (if dest = canonicalAta c (.vault o) m then (s.estate c o).holding m
           else (s.estate c o).holding m - n) } := by
  rcases hd with rfl | hd
  · simp [World.estate, Ledger.move_self hn]
  · rw [estate_payTokens hd, if_neg (hd m)]

theorem estate_closePair {dest : Pubkey} (hd : dest ≠ .vault o) :
    (s.closePair (.vault o) dest).estate c o =
      { s.estate c o with config := none, heartbeat := none, lamports := 0 } := by
  unfold closePair
  rw [estate_putHeartbeatRecord, estate_sendLamports_of_ne (by simp) hd, estate_putVaultConfig,
    estate_sendLamports_from hd]
  simp [World.estate]

theorem estate_closePlan {v : VaultConfig} {dest : Pubkey} (hd : dest ≠ .vault o) :
    (s.closePlan v (.vault o) dest).estate c o =
      { s.estate c o with plan := if v.hasAssetPlan then none else (s.estate c o).plan } := by
  unfold closePlan
  split
  · rw [estate_putAssetPlan, estate_sendLamports_of_ne (by simp) hd]
  · rfl

end View

/-! ## The movements out of an estate -/

@[simp] theorem leaves_sol {source dest recipient : Pubkey} {n : Nat} {purpose : Purpose} :
    Movement.leaves c o ⟨.sol, source, dest, recipient, n, purpose⟩ =
      decide (source = .vault o) := rfl

@[simp] theorem leaves_token {m source dest recipient : Pubkey} {n : Nat} {purpose : Purpose} :
    Movement.leaves c o ⟨.token m, source, dest, recipient, n, purpose⟩ =
      decide (source = canonicalAta c (.vault o) m) := rfl

theorem filter_made {mv : Movement} (h : mv.leaves c o = true) :
    mv.made.filter (Movement.leaves c o) = mv.made := by
  unfold Movement.made
  split
  · simp [h]
  · rfl

theorem filter_closePair (dest : Pubkey) :
    (s.closePair (.vault o) dest).moved.filter (Movement.leaves c o) =
      s.moved.filter (Movement.leaves c o) ++
        [⟨.sol, .vault o, dest, dest, s.lamports (.vault o), .refund⟩] := by
  simp [closePair]

theorem filter_closePlan {v : VaultConfig} (dest : Pubkey) :
    (s.closePlan v (.vault o) dest).moved.filter (Movement.leaves c o) =
      s.moved.filter (Movement.leaves c o) := by
  unfold closePlan
  split
  · simp
  · rfl

/-- The estate of `o` runs through `acts`, whose movements are the new movements
    out of it. -/
structure Performs (c : Cluster) (o : Pubkey) (s : World) (acts : List Act) (s' : World) :
    Prop where
  run : Trace (Estate.Step c o) (s.estate c o) acts (s'.estate c o)
  moved : s'.moved.filter (Movement.leaves c o) =
    s.moved.filter (Movement.leaves c o) ++ acts.flatMap (·.moves)

namespace Performs

theorem refl (s : World) : Performs c o s [] s :=
  ⟨.nil _, by simp⟩

theorem append {acts acts' : List Act} (h : Performs c o s acts s')
    (h' : Performs c o s' acts' s'') : Performs c o s (acts ++ acts') s'' :=
  ⟨h.run.append h'.run, by simp [h'.moved, h.moved]⟩

theorem single {a : Act} (h : Estate.Step c o (s.estate c o) a (s'.estate c o))
    (hm : s'.moved.filter (Movement.leaves c o) =
      s.moved.filter (Movement.leaves c o) ++ a.moves) : Performs c o s [a] s' :=
  ⟨.single h, by simp [hm]⟩

end Performs

/-! ## Each instruction on the vault of `o` -/

section Own

theorem initializeVault_performs {ctx : InitializeVault} {params : InitializeVaultParams}
    (ho : ctx.vaultConfig = .vault o) (hp : s.Regular c)
    (h : initializeVault c ctx params s = .ok s') : Performs c o s [⟨.create, []⟩] s' := by
  obtain ⟨v, hb, n, n', fee, hsign, hseeds, hnone, hnone', -, hrent, -, hacc, howner, hexec,
    hactive, hplan, hopen, hbounty, hpin, hlast, -, rfl⟩ := initializeVault_ok h
  simp only [ho] at hnone hnone' hrent hpin hseeds ⊢
  have hsigner : ctx.owner ≠ .vault o := Pubkey.ne_vault_of_canSign hsign
  have hfee : feeWallet ≠ .vault o := by simp [feeWallet]
  refine .single ?_ (by simp [hsigner])
  rw [estate_sendLamports_of_ne hsigner hfee, estate_putHeartbeatRecord, estate_putVaultConfig,
    estate_sendLamports_of_ne hsigner (by simp), estate_sendLamports_to hsigner]
  have howner' : v.owner = o := by
    rw [howner]
    exact (Pubkey.vault.inj hseeds).symm
  exact .create hnone hnone' ⟨hacc, howner', hexec, hactive, hplan, hopen, hbounty⟩ hpin hlast
    hp.clock.1 hrent

theorem updateVault_performs {ctx : UpdateVault} {params : UpdateVaultParams}
    (ho : ctx.vaultConfig = .vault o) (h : updateVault c ctx params s = .ok s') :
    Performs c o s [⟨.amend, []⟩] s' := by
  obtain ⟨v, v', hb, -, -, hgate, -, -, -, -, hedit, hplan, hlock, rfl⟩ := updateVault_ok h
  rw [ho] at hgate ⊢
  refine .single ?_ (by simp)
  rw [estate_putVaultConfig]
  have hstep := Estate.Step.amend (E := s.estate c o) hgate.config hgate.record hgate.before
    hedit hgate.pinned (.inl rfl) (.keep hplan hlock)
  rw [← hgate.record] at hstep
  exact hstep

theorem recordHeartbeat_performs {ctx : RecordHeartbeat} {method : HeartbeatMethod}
    (ho : ctx.vaultConfig = .vault o) (hp : s.Regular c)
    (h : recordHeartbeat ctx method s = .ok s') : Performs c o s [⟨.amend, []⟩] s' := by
  obtain ⟨v, hb, hb', -, hgate, -, -, -, -, hpin, hlast, rfl⟩ := recordHeartbeat_ok h
  rw [ho] at hgate hpin ⊢
  refine .single ?_ (by simp)
  rw [estate_putHeartbeatRecord]
  have hstep := Estate.Step.amend (c := c) (E := s.estate c o) hgate.config hgate.record
    hgate.before (.refl v) hpin (.inr ⟨hlast, hp.clock.1⟩) (.keep rfl fun _ => rfl)
  rw [← hgate.config] at hstep
  exact hstep

theorem rotateAgent_performs {ctx : RotateAgent} {newAgentPubkey : Pubkey}
    (ho : ctx.vaultConfig = .vault o) (hp : s.Regular c)
    (h : rotateAgent ctx newAgentPubkey s = .ok s') : Performs c o s [⟨.amend, []⟩] s' := by
  obtain ⟨v, v', hb, hb', -, hgate, -, -, -, hedit, hplan, hlock, hpin, hlast, rfl⟩ :=
    rotateAgent_ok (c := c) h
  rw [ho] at hgate hpin ⊢
  refine .single ?_ (by simp)
  rw [estate_putHeartbeatRecord, estate_putVaultConfig]
  exact .amend (E := s.estate c o) hgate.config hgate.record hgate.before hedit hpin
    (.inr ⟨hlast, hp.clock.1⟩) (.keep hplan fun _ => hlock)

theorem setAssetPlan_performs {ctx : SetAssetPlan} {assignments : List AssetAssignment}
    (ho : ctx.vaultConfig = .vault o) (h : setAssetPlan c ctx assignments s = .ok s') :
    Performs c o s [⟨.amend, []⟩] s' := by
  obtain ⟨v, hb, n, hsign, -, hgate, -, -, -, -, -, hvalid, rfl⟩ := setAssetPlan_ok h
  rw [ho] at hgate ⊢
  have hsigner : ctx.owner ≠ .vault o := Pubkey.ne_vault_of_canSign hsign
  refine .single ?_ (by simp [hsigner])
  rw [estate_putVaultConfig, estate_putAssetPlan, estate_sendLamports_of_ne hsigner (by simp)]
  have hstep := Estate.Step.amend (c := c) (E := s.estate c o) hgate.config hgate.record
    hgate.before (.setPlan v true) hgate.pinned (.inl rfl) (.write rfl rfl hvalid)
  rw [← hgate.record] at hstep
  exact hstep

theorem updateAssetPlan_performs {ctx : UpdateAssetPlan} {assignments : List AssetAssignment}
    (ho : ctx.vaultConfig = .vault o) (h : updateAssetPlan ctx assignments s = .ok s') :
    Performs c o s [⟨.amend, []⟩] s' := by
  obtain ⟨v, hb, -, -, hgate, -, -, -, hhas, hvalid, rfl⟩ := updateAssetPlan_ok h
  rw [ho] at hgate ⊢
  refine .single ?_ (by simp)
  rw [estate_putAssetPlan]
  have hstep := Estate.Step.amend (c := c) (E := s.estate c o) hgate.config hgate.record
    hgate.before (.refl v) hgate.pinned (.inl rfl) (.write hhas rfl hvalid)
  rw [← hgate.record, ← hgate.config] at hstep
  exact hstep

theorem clearAssetPlan_performs {ctx : ClearAssetPlan} (ho : ctx.vaultConfig = .vault o)
    (h : clearAssetPlan ctx s = .ok s') : Performs c o s [⟨.amend, []⟩] s' := by
  obtain ⟨v, hb, hsign, -, hgate, -, -, -, -, rfl⟩ := clearAssetPlan_ok h
  rw [ho] at hgate ⊢
  have hsigner : ctx.owner ≠ .vault o := Pubkey.ne_vault_of_canSign hsign
  refine .single ?_ (by simp)
  rw [estate_putVaultConfig, estate_putAssetPlan, estate_sendLamports_of_ne (by simp) hsigner]
  have hstep := Estate.Step.amend (c := c) (E := s.estate c o) hgate.config hgate.record
    hgate.before (.setPlan v false) hgate.pinned (.inl rfl) (.clear rfl)
  rw [← hgate.record] at hstep
  exact hstep

theorem withdrawFromVault_performs {ctx : WithdrawFromVault} {amount : Nat}
    (ho : ctx.vaultConfig = .vault o) (h : withdrawFromVault c ctx amount s = .ok s') :
    ∃ moves, Performs c o s [⟨.withdraw, moves⟩] s' := by
  obtain ⟨v, hb, recipient, -, -, hgate, -, -, -, -, rfl⟩ := withdrawFromVault_ok h
  rw [ho] at hgate
  refine ⟨_, .single ?_ (by rw [sendTokens_moved, List.filter_append])⟩
  exact .withdraw (E := s.estate c o) hgate.config hgate.record hgate.before fun hrent => hrent

theorem withdrawSolFromVault_performs {ctx : WithdrawSolFromVault} {amount : Nat}
    (ho : ctx.vaultConfig = .vault o) (h : withdrawSolFromVault c ctx amount s = .ok s') :
    ∃ moves, Performs c o s [⟨.withdraw, moves⟩] s' := by
  obtain ⟨v, hb, hsign, -, hgate, -, hfit, rfl⟩ := withdrawSolFromVault_ok h
  rw [ho] at hgate hfit ⊢
  have hsigner : ctx.owner ≠ .vault o := Pubkey.ne_vault_of_canSign hsign
  refine ⟨_, .single ?_ (by rw [sendLamports_moved, List.filter_append])⟩
  rw [estate_sendLamports_from hsigner]
  refine .withdraw (E := s.estate c o) hgate.config hgate.record hgate.before fun _ => ?_
  change _ ≤ s.lamports (.vault o) - amount
  omega

theorem revokeVault_performs {ctx : RevokeVault} (ho : ctx.vaultConfig = .vault o)
    (h : revokeVault ctx s = .ok s') : ∃ moves, Performs c o s [⟨.revoke, moves⟩] s' := by
  obtain ⟨v, hb, hsign, -, hgate, -, -, -, -, rfl⟩ := revokeVault_ok h
  rw [ho] at hgate ⊢
  have hsigner : ctx.owner ≠ .vault o := Pubkey.ne_vault_of_canSign hsign
  refine ⟨_, .single ?_ (by rw [filter_closePair, filter_closePlan])⟩
  rw [estate_closePair hsigner, estate_closePlan hsigner]
  exact .revoke (E := s.estate c o) hgate.config hgate.record hgate.before

theorem closeRevokedVault_performs {ctx : CloseRevokedVault} (ho : ctx.vaultConfig = .vault o)
    (h : closeRevokedVault ctx s = .ok s') :
    ∃ moves, Performs c o s [⟨.closeRevoked, moves⟩] s' := by
  obtain ⟨v, hb, hsign, -, hv, -, -, hactive, hexec, rfl⟩ := closeRevokedVault_ok h
  rw [ho] at hv ⊢
  have hsigner : ctx.owner ≠ .vault o := Pubkey.ne_vault_of_canSign hsign
  refine ⟨_, .single ?_ (by rw [filter_closePair])⟩
  rw [estate_closePair hsigner]
  exact .closeRevoked (E := s.estate c o) hv hactive hexec

/-- The plan that the handlers read is the one of the estate. -/
theorem registered_assignments (v : VaultConfig) :
    (s.registeredPlan (.vault o) v).elim [] (·.assignments) = (s.estate c o).registered v := by
  unfold World.registeredPlan Estate.registered
  split
  · rfl
  · rfl

theorem beginExecution_performs {ctx : BeginExecution} (ho : ctx.vaultConfig = .vault o)
    (hp : s.Regular c) (h : beginExecution c ctx s = .ok s') :
    Performs c o s [⟨.begin, []⟩] s' := by
  obtain ⟨v, hb, n, hsign, hv, hh, hnone, -, -, hexec, -, hdl, -, rfl⟩ := beginExecution_ok h
  rw [ho] at hv hh hnone ⊢
  have hsigner : ctx.payer ≠ .vault o := Pubkey.ne_vault_of_canSign hsign
  have hbal : s.lamports (.vault o) ≤ u64Max := hp.lamportSupply.le _
  have hsum : asU64 (s.lamports (.vault o) - c.minimumBalance VaultConfig.space -
      (s.registeredPlan (.vault o) v).elim 0 (sumSpecificSol ·.assignments) - v.keeperBounty) =
      s.lamports (.vault o) - c.minimumBalance VaultConfig.space -
        bequeathed ((s.estate c o).registered v) .default - v.keeperBounty := by
    rw [asU64_of_le (by omega), ← registered_assignments]
    cases s.registeredPlan (.vault o) v with
    | none => rfl
    | some p =>
        simp only [Option.elim_some, sumSpecificSol_eq]
        unfold u64Max at hbal
        omega
  refine .single ?_ (by simp [hsigner])
  rw [estate_putExecutionLog, estate_sendLamports_of_ne hsigner (by simp), hsum]
  exact .begin (E := s.estate c o) hv hh hnone hexec hdl hbal

theorem beginTokenDist_performs {ctx : BeginTokenDist} (ho : ctx.vaultConfig = .vault o)
    (hp : s.Regular c) (h : beginTokenDist c ctx s = .ok s') :
    Performs c o s [⟨.beginDist ctx.mint, []⟩] s' := by
  obtain ⟨v, l, n, hsign, hgate, hmint, hnone, -, hopen, rfl⟩ := beginTokenDist_ok hp.vacant h
  rw [ho] at hgate hnone hopen ⊢
  have hsigner : ctx.payer ≠ .vault o := Pubkey.ne_vault_of_canSign hsign
  have hbal := hp.tokens_le o ctx.mint
  have hdefault : ctx.mint ≠ .default := by
    intro hm
    simp [hm, hp.defaultMint] at hmint
  have hsum : s.tokenAmounts (canonicalAta c (.vault o) ctx.mint) -
      (s.registeredPlan (.vault o) v).elim 0 (sumSpecific ·.assignments ctx.mint) =
      s.tokenAmounts (canonicalAta c (.vault o) ctx.mint) -
        bequeathed ((s.estate c o).registered v) ctx.mint := by
    rw [← registered_assignments]
    cases s.registeredPlan (.vault o) v with
    | none => rfl
    | some p =>
        simp only [Option.elim_some, sumSpecific_eq]
        omega
  have hopen' : 0 < s.tokenAmounts (canonicalAta c (.vault o) ctx.mint) ∨
      ∃ a ∈ (s.estate c o).registered v, a.mint = ctx.mint := by
    rw [← registered_assignments]
    cases hplan : s.registeredPlan (.vault o) v with
    | none => simpa [hplan] using hopen
    | some p => simpa [hplan] using hopen
  refine .single ?_ (by simp [hsigner])
  rw [estate_putVaultConfig, estate_putTokenDist, estate_sendLamports_of_ne hsigner (by simp), hsum]
  exact .beginDist (E := s.estate c o) hgate.config hgate.log hnone hdefault hbal hopen'

theorem executeSpecificSol_performs {ctx : ExecuteSpecificSol} {j : Nat}
    (ho : ctx.vaultConfig = .vault o) (h : executeSpecificSol c ctx j s = .ok s') :
    ∃ moves, Performs c o s [⟨.specificSol j, moves⟩] s' := by
  obtain ⟨v, l, p, a, b, -, hgate, hplan, ha, hm, hb, hself, horder, hclear, rfl⟩ :=
    executeSpecificSol_ok h
  rw [ho] at hgate hplan hself ⊢
  refine ⟨_, .single ?_ (by
    rw [putAssetPlan_moved, paySol_moved, List.filter_append, filter_made (by simp)])⟩
  rw [estate_putAssetPlan, estate_paySol hself]
  exact .specificSol (E := s.estate c o) hgate.config hgate.log hplan ha hm hb hself horder hclear

/-- A token account of anyone but the vault is no canonical account of it. -/
theorem ne_canonicalAta (hp : s.Regular c) {k : Pubkey} {account : TokenAccount}
    (hk : s.tokenAccounts k = some account) (howner : account.owner ≠ .vault o) (m : Pubkey) :
    k ≠ canonicalAta c (.vault o) m := by
  rintro rfl
  apply howner
  rw [hp.vaultAtas o m _ account hk]

theorem executeSpecificAsset_performs {ctx : ExecuteSpecificAsset} {j : Nat}
    (ho : ctx.vaultConfig = .vault o) (hp : s.Regular c)
    (h : executeSpecificAsset c ctx j s = .ok s') :
    ∃ moves, Performs c o s [⟨.specificAsset ctx.mint j, moves⟩] s' := by
  obtain ⟨v, l, p, d, a, b, program, -, hgate, hplan, hdist, -, ha, hm, hdefault, hb, hself, hben,
    horder, hclear, -, rfl⟩ := executeSpecificAsset_ok h
  rw [ho] at hgate hplan hdist hself ⊢
  have hdest := ne_canonicalAta hp hben hself
  refine ⟨_, .single ?_ (by
    rw [payTokens_moved, List.filter_append, filter_made (by simp), putAssetPlan_moved])⟩
  rw [estate_payTokens hdest, estate_putAssetPlan]
  rw [hm] at hdefault horder
  exact .specificAsset (E := s.estate c o) hgate.config hgate.log hplan hdist ha hm hdefault hb hself
    horder hclear

theorem finalizeExecution_performs {ctx : FinalizeExecution} (ho : ctx.vaultConfig = .vault o)
    (h : finalizeExecution c ctx s = .ok s') :
    ∃ moves, Performs c o s [⟨.finalize ctx.payer, moves⟩] s' := by
  obtain ⟨v, l, hsign, hgate, hexec, hfull, hplan, rfl⟩ := finalizeExecution_ok h
  rw [ho] at hgate hplan ⊢
  have hsigner : ctx.payer ≠ .vault o := Pubkey.ne_vault_of_canSign hsign
  refine ⟨_, .single ?_ (by
    rw [paySol_moved, List.filter_append, filter_made (by simp), putExecutionLog_moved,
      putVaultConfig_moved])⟩
  rw [estate_paySol hsigner, estate_putExecutionLog, estate_putVaultConfig]
  exact .finalize (E := s.estate c o) hgate.config hgate.log hexec hfull hplan hsigner

/-- One turn of the SOL loop is one share, or nothing when the index is paid. -/
theorem paySolShare_performs {v : VaultConfig} {l : ExecutionLog} {entry : Nat × AccountMeta}
    (hv : s.vaultConfigs (.vault o) = some v) (hexec : v.executed = false)
    (hl : s.executionLogs (.execution (.vault o)) = some l)
    (h : paySolShare (.vault o) (.execution (.vault o)) v.beneficiaries l.solSnapshot s entry
      = .ok s') :
    ∃ acts l', Performs c o s acts s' ∧ (∀ a ∈ acts, ∃ i, a.deed = .solShare i) ∧
      s'.vaultConfigs (.vault o) = some v ∧
      s'.executionLogs (.execution (.vault o)) = some l' ∧ l'.solSnapshot = l.solSnapshot := by
  obtain ⟨b, log, hb, hlog, hturn⟩ := paySolShare_ok h
  obtain rfl : l = log := by simpa [hl] using hlog
  rcases hturn with ⟨-, rfl⟩ | ⟨hclear, hself, hn, total, count, rfl⟩
  · exact ⟨[], l, .refl _, by simp, hv, hl, rfl⟩
  · refine ⟨_, { l with
        totalSolDistributed := total
        transferCount := count
        solPaidMask := Bitmask.mark l.solPaidMask entry.1 },
      .single (a := ⟨.solShare entry.1, _⟩) ?_ (by
        rw [putExecutionLog_moved, paySol_moved, List.filter_append, filter_made (by simp)]),
      by simp, by simpa using hv, by simp, rfl⟩
    rw [estate_putExecutionLog]
    have hpay : (s.paySol (.vault o) b.wallet (shareAmount l.solSnapshot b.shareBps)
        (.solShare entry.1)).estate c o = { s.estate c o with
          lamports := (s.estate c o).lamports - shareAmount l.solSnapshot b.shareBps } := by
      by_cases hzero : shareAmount l.solSnapshot b.shareBps = 0
      · simp [World.estate, hzero]
      · exact estate_paySol (hself (by omega))
    rw [hpay]
    exact .solShare (E := s.estate c o) hv hexec hl hb hclear hself hn

theorem executeSolShares_performs {ctx : ExecuteSolShares} {indices : List Nat}
    (ho : ctx.vaultConfig = .vault o) (h : executeSolShares ctx indices s = .ok s') :
    ∃ acts, Performs c o s acts s' ∧ ∀ a ∈ acts, ∃ i, a.deed = .solShare i := by
  obtain ⟨v, l, -, hgate, hexec, hrun⟩ := executeSolShares_ok h
  rw [ho] at hgate hrun
  have hloop := hrun.preserves
    (P := fun t => ∃ acts l', Performs c o s acts t ∧ (∀ a ∈ acts, ∃ i, a.deed = .solShare i) ∧
      t.vaultConfigs (.vault o) = some v ∧
      t.executionLogs (.execution (.vault o)) = some l' ∧ l'.solSnapshot = l.solSnapshot)
    (fun t entry t' ⟨acts, l', hacts, hdeeds, hv, hl, hsnap⟩ hturn => by
      rw [← hsnap] at hturn
      obtain ⟨acts', l'', hacts', hdeeds', hv', hl', hsnap'⟩ :=
        paySolShare_performs hv hexec hl hturn
      refine ⟨acts ++ acts', l'', hacts.append hacts', ?_, hv', hl', hsnap'.trans hsnap⟩
      intro a ha
      exact (List.mem_append.mp ha).elim (hdeeds a) (hdeeds' a))
    ⟨[], l, .refl s, by simp, hgate.config, hgate.log, rfl⟩
  obtain ⟨acts, _, hacts, hdeeds, -⟩ := hloop
  exact ⟨acts, hacts, hdeeds⟩

/-- One turn of the token loop is one share, or nothing when the index is paid. -/
theorem payTokenShare_performs {ctx : ExecuteTokenShares} {v : VaultConfig} {d : TokenDist}
    {decimals : Nat} {entry : Nat × AccountMeta} (ho : ctx.vaultConfig = .vault o)
    (hkey : ctx.tokenDist = .tokenDist (.vault o) ctx.mint)
    (hata : ctx.vaultAta = canonicalAta c (.vault o) ctx.mint) (hp : s.Regular c)
    (hv : s.vaultConfigs (.vault o) = some v)
    (hd : s.tokenDists (.tokenDist (.vault o) ctx.mint) = some d)
    (h : payTokenShare c ctx v.beneficiaries d.snapshot decimals s entry = .ok s') :
    ∃ acts d', Performs c o s acts s' ∧ (∀ a ∈ acts, ∃ i, a.deed = .tokenShare ctx.mint i) ∧
      s'.Regular c ∧ s'.vaultConfigs (.vault o) = some v ∧
      s'.tokenDists (.tokenDist (.vault o) ctx.mint) = some d' ∧ d'.snapshot = d.snapshot := by
  have hfoot : Confined c ctx.vaultConfig ctx.payer s s' := payTokenShare_confined (ho ▸ hkey) h
  have hp' := hfoot.regular hp
  obtain ⟨b, dist, hb, hdist, hturn⟩ := payTokenShare_ok h
  rw [hkey] at hdist
  obtain rfl : d = dist := by simpa [hd] using hdist
  rcases hturn with ⟨-, rfl⟩ | ⟨hclear, program, hben, hn, hacc, rfl⟩
  · exact ⟨[], d, .refl _, by simp, hp', hv, hd, rfl⟩
  · rw [hkey, hata] at hp' ⊢
    rw [hata] at hn
    refine ⟨_, { d with paidMask := Bitmask.mark d.paidMask entry.1 },
      .single (a := ⟨.tokenShare ctx.mint entry.1, _⟩) ?_ (by
        rw [payTokens_moved, List.filter_append, filter_made (by simp), putTokenDist_moved]),
      by simp, hp', by simpa using hv, by simp, rfl⟩
    have hdest : entry.2.key = canonicalAta c (.vault o) ctx.mint ∨
        ∀ m, entry.2.key ≠ canonicalAta c (.vault o) m := by
      by_contra hnot
      push Not at hnot
      obtain ⟨hne, m, hm⟩ := hnot
      rw [hm] at hben
      have hmint := congrArg TokenAccount.mint (hp.vaultAtas o m _ _ hben)
      exact hne (by rw [hm, ← show ctx.mint = m from hmint])
    rw [estate_payTokens_any hdest (by simpa using hn), estate_putTokenDist]
    exact .tokenShare (E := s.estate c o) hv hd hb hclear hn
      fun hself => ne_canonicalAta hp hben hself ctx.mint

theorem executeTokenShares_performs {ctx : ExecuteTokenShares} {indices : List Nat}
    (ho : ctx.vaultConfig = .vault o) (hp : s.Regular c)
    (h : executeTokenShares c ctx indices s = .ok s') :
    ∃ acts, Performs c o s acts s' ∧ ∀ a ∈ acts, ∃ i, a.deed = .tokenShare ctx.mint i := by
  obtain ⟨v, d, decimals, -, hv, -, hkey, hata, hd, hrun⟩ := executeTokenShares_ok h
  rw [ho] at hv hkey hata hd
  have hloop := hrun.preserves
    (P := fun t => ∃ acts d', Performs c o s acts t ∧
      (∀ a ∈ acts, ∃ i, a.deed = .tokenShare ctx.mint i) ∧ t.Regular c ∧
      t.vaultConfigs (.vault o) = some v ∧
      t.tokenDists (.tokenDist (.vault o) ctx.mint) = some d' ∧ d'.snapshot = d.snapshot)
    (fun t entry t' ⟨acts, d', hacts, hdeeds, hp, hv, hd, hsnap⟩ hturn => by
      rw [← hsnap] at hturn
      obtain ⟨acts', d'', hacts', hdeeds', hp', hv', hd', hsnap'⟩ :=
        payTokenShare_performs ho hkey hata hp hv hd hturn
      refine ⟨acts ++ acts', d'', hacts.append hacts', ?_, hp', hv', hd', hsnap'.trans hsnap⟩
      intro a ha
      exact (List.mem_append.mp ha).elim (hdeeds a) (hdeeds' a))
    ⟨[], d, .refl s, by simp, hp, hv, hd, rfl⟩
  obtain ⟨acts, _, hacts, hdeeds, -⟩ := hloop
  exact ⟨acts, hacts, hdeeds⟩

/-- The dust sweep empties the canonical account, whoever receives it. -/
theorem estate_sweepTokenDust (hp : s.Regular c) {m dest recipient : Pubkey}
    (hdest : 0 < s.tokenAmounts (canonicalAta c (.vault o) m) →
      s.tokenAccounts dest = some ⟨some (c.tokenProgram m), m, recipient⟩)
    (hzero : (s.payTokens (canonicalAta c (.vault o) m) m dest recipient
      (s.tokenAmounts (canonicalAta c (.vault o) m)) .tokenDust).tokenAmounts
      (canonicalAta c (.vault o) m) = 0) :
    (s.payTokens (canonicalAta c (.vault o) m) m dest recipient
      (s.tokenAmounts (canonicalAta c (.vault o) m)) .tokenDust).estate c o =
      { s.estate c o with holding := Function.update (s.estate c o).holding m 0 } := by
  by_cases hpos : 0 < s.tokenAmounts (canonicalAta c (.vault o) m)
  · have hne : dest ≠ canonicalAta c (.vault o) m := by
      rintro rfl
      rw [payTokens_tokenAmounts, Ledger.move_self le_rfl] at hzero
      omega
    have hnone : ∀ m', dest ≠ canonicalAta c (.vault o) m' := by
      rintro m' rfl
      have hmint := congrArg TokenAccount.mint (hp.vaultAtas o m' _ _ (hdest hpos))
      exact hne (by rw [← show m = m' from hmint])
    rw [estate_payTokens hnone]
    simp [World.estate]
  · have hempty : s.tokenAmounts (canonicalAta c (.vault o) m) = 0 := by omega
    rw [hempty, payTokens_eq, if_neg (by omega)]
    have hkeep : Function.update (s.estate c o).holding m 0 = (s.estate c o).holding :=
      Function.update_eq_self_iff.mpr hempty.symm
    rw [hkeep]

theorem closeTokenDist_performs {ctx : CloseTokenDist} (ho : ctx.vaultConfig = .vault o)
    (hp : s.Regular c) (h : closeTokenDist c ctx s = .ok s') :
    ∃ moves, Performs c o s [⟨.closeDist ctx.mint, moves⟩] s' := by
  obtain ⟨v, d, dest, recipient, s₁, s₂, hsign, hv, hseeds, hexec, hd, hfull, hdust, rfl, -, hzero,
    rfl, rfl⟩ := closeTokenDist_ok h
  rw [ho] at hv hd hdust hzero hseeds ⊢
  have hsigner : ctx.payer ≠ .vault o := Pubkey.ne_vault_of_canSign hsign
  have howner : v.owner ≠ .vault o := by
    rw [← Pubkey.vault.inj hseeds]
    exact Pubkey.ne_vault_self o
  refine ⟨Movement.made ⟨.token ctx.mint, canonicalAta c (.vault o) ctx.mint, dest, recipient,
    s.tokenAmounts (canonicalAta c (.vault o) ctx.mint), .tokenDust⟩, .single ?_ ?_⟩
  swap
  · simp [canonicalAta, List.filter_append, filter_made]
  rw [estate_putTokenDist, estate_sendLamports_of_ne (by simp) hsigner, estate_putVaultConfig,
    estate_dropTokenAccount, estate_sendLamports_of_ne (by simp [canonicalAta]) howner,
    estate_sweepTokenDust hp (fun hpos => (hdust hpos).2.2) hzero]
  exact .closeDist (E := s.estate c o) hv hexec hd hfull fun hpos => (hdust hpos).1

theorem settleAndClose_performs {v : VaultConfig} {l : ExecutionLog} {plan : Option AssetPlan}
    {dest : Pubkey} {largestBenef : Option Pubkey} (hgate : Closable s (.vault o) v l)
    (hd : dest ≠ .vault o)
    (h : settleAndClose c v plan (.vault o) (.heartbeat (.vault o)) (.execution (.vault o)) dest
      largestBenef s = .ok s') : ∃ moves, Performs c o s [⟨.close, moves⟩] s' := by
  obtain ⟨recipient, s₁, hdust, rfl, rfl⟩ := settleAndClose_ok h
  have hleft : ((s.paySol (.vault o) recipient (s.lamports (.vault o) -
      c.minimumBalance VaultConfig.space) .solDust).closePlan v (.vault o) dest).lamports
      (.vault o) = if recipient = .vault o then s.lamports (.vault o)
        else s.lamports (.vault o) -
          (s.lamports (.vault o) - c.minimumBalance VaultConfig.space) := by
    have hplan := congrArg Estate.lamports (estate_closePlan (c := c) (v := v) (s := s.paySol
      (.vault o) recipient (s.lamports (.vault o) - c.minimumBalance VaultConfig.space)
      .solDust) hd)
    refine hplan.trans ?_
    change Ledger.move s.lamports (.vault o) recipient _ (.vault o) = _
    split
    · rename_i hr
      rw [hr, Ledger.move_self (Nat.sub_le _ _)]
    · rename_i hr
      exact Ledger.move_source (Ne.symm hr)
  refine ⟨_, .single ?_ (by
    rw [putExecutionLog_moved, sendLamports_moved, List.filter_append, filter_closePair,
      filter_closePlan, paySol_moved, List.filter_append, filter_made (by simp), hleft,
      List.filter_singleton, leaves_sol, List.append_assoc, List.append_assoc])⟩
  rw [estate_putExecutionLog, estate_sendLamports_of_ne (by simp) hd, estate_closePair hd,
    estate_closePlan hd]
  exact .close (E := s.estate c o) hgate.config hgate.log hgate.record hgate.executed hgate.swept
    hdust

theorem closeExecutedVault_performs {ctx : CloseExecutedVault} (ho : ctx.vaultConfig = .vault o)
    (h : closeExecutedVault c ctx s = .ok s') :
    ∃ moves, Performs c o s [⟨.close, moves⟩] s' := by
  obtain ⟨v, l, plan, hsign, hgate, -, -, hsettle⟩ := closeExecutedVault_ok h
  rw [ho] at hgate hsettle
  exact settleAndClose_performs hgate (Pubkey.ne_vault_of_canSign hsign) hsettle

theorem closeExecutedVaultByOwner_performs {ctx : CloseExecutedVaultByOwner}
    (ho : ctx.vaultConfig = .vault o) (h : closeExecutedVaultByOwner c ctx s = .ok s') :
    ∃ moves, Performs c o s [⟨.close, moves⟩] s' := by
  obtain ⟨v, l, plan, hsign, hgate, -, hsettle⟩ := closeExecutedVaultByOwner_ok h
  rw [ho] at hgate hsettle
  exact settleAndClose_performs hgate (Pubkey.ne_vault_of_canSign hsign) hsettle

end Own

/-! ## Every instruction and the environment -/

/-- The deeds an accepted instruction on a vault consists of. -/
def Instruction.Unfolds : Instruction → List Deed → Prop
  | initializeVault _ _, deeds => deeds = [.create]
  | updateVault _ _, deeds => deeds = [.amend]
  | recordHeartbeat _ _, deeds => deeds = [.amend]
  | rotateAgent _ _, deeds => deeds = [.amend]
  | revokeVault _, deeds => deeds = [.revoke]
  | closeRevokedVault _, deeds => deeds = [.closeRevoked]
  | closeExecutedVaultByOwner _, deeds => deeds = [.close]
  | closeExecutedVault _, deeds => deeds = [.close]
  | withdrawFromVault _ _, deeds => deeds = [.withdraw]
  | withdrawSolFromVault _ _, deeds => deeds = [.withdraw]
  | setAssetPlan _ _, deeds => deeds = [.amend]
  | updateAssetPlan _ _, deeds => deeds = [.amend]
  | clearAssetPlan _, deeds => deeds = [.amend]
  | beginExecution _, deeds => deeds = [.begin]
  | beginTokenDist ctx, deeds => deeds = [.beginDist ctx.mint]
  | executeSpecificAsset ctx j, deeds => deeds = [.specificAsset ctx.mint j]
  | executeSpecificSol _ j, deeds => deeds = [.specificSol j]
  | executeSolShares _ _, deeds => ∀ d ∈ deeds, ∃ i, d = .solShare i
  | executeTokenShares ctx _, deeds => ∀ d ∈ deeds, ∃ i, d = .tokenShare ctx.mint i
  | finalizeExecution ctx, deeds => deeds = [.finalize ctx.payer]
  | closeTokenDist ctx, deeds => deeds = [.closeDist ctx.mint]

/-- An accepted instruction on the vault of `o` is a run of the estate of `o`. -/
theorem exec_performs {i : Instruction} (hp : s.Regular c) (ho : i.vaultKey = .vault o)
    (h : exec c i s = .ok s') :
    ∃ acts, Performs c o s.fresh acts s' ∧ i.Unfolds (acts.map (·.deed)) := by
  have hp := hp.fresh
  unfold exec Instruction.dispatch at h
  cases i with
  | initializeVault => exact ⟨_, initializeVault_performs ho hp h, rfl⟩
  | updateVault => exact ⟨_, updateVault_performs ho h, rfl⟩
  | recordHeartbeat => exact ⟨_, recordHeartbeat_performs ho hp h, rfl⟩
  | rotateAgent => exact ⟨_, rotateAgent_performs ho hp h, rfl⟩
  | revokeVault =>
      obtain ⟨_, hacts⟩ := revokeVault_performs (c := c) ho h
      exact ⟨_, hacts, rfl⟩
  | closeRevokedVault =>
      obtain ⟨_, hacts⟩ := closeRevokedVault_performs (c := c) ho h
      exact ⟨_, hacts, rfl⟩
  | closeExecutedVaultByOwner =>
      obtain ⟨_, hacts⟩ := closeExecutedVaultByOwner_performs ho h
      exact ⟨_, hacts, rfl⟩
  | closeExecutedVault =>
      obtain ⟨_, hacts⟩ := closeExecutedVault_performs ho h
      exact ⟨_, hacts, rfl⟩
  | withdrawFromVault =>
      obtain ⟨_, hacts⟩ := withdrawFromVault_performs ho h
      exact ⟨_, hacts, rfl⟩
  | withdrawSolFromVault =>
      obtain ⟨_, hacts⟩ := withdrawSolFromVault_performs ho h
      exact ⟨_, hacts, rfl⟩
  | setAssetPlan => exact ⟨_, setAssetPlan_performs ho h, rfl⟩
  | updateAssetPlan => exact ⟨_, updateAssetPlan_performs ho h, rfl⟩
  | clearAssetPlan => exact ⟨_, clearAssetPlan_performs ho h, rfl⟩
  | beginExecution => exact ⟨_, beginExecution_performs ho hp h, rfl⟩
  | beginTokenDist => exact ⟨_, beginTokenDist_performs ho hp h, rfl⟩
  | executeSpecificAsset =>
      obtain ⟨_, hacts⟩ := executeSpecificAsset_performs ho hp h
      exact ⟨_, hacts, rfl⟩
  | executeSpecificSol =>
      obtain ⟨_, hacts⟩ := executeSpecificSol_performs ho h
      exact ⟨_, hacts, rfl⟩
  | executeSolShares =>
      obtain ⟨_, hacts, hdeeds⟩ := executeSolShares_performs (c := c) ho h
      exact ⟨_, hacts, by simpa [Instruction.Unfolds] using hdeeds⟩
  | executeTokenShares =>
      obtain ⟨_, hacts, hdeeds⟩ := executeTokenShares_performs ho hp h
      exact ⟨_, hacts, by simpa [Instruction.Unfolds] using hdeeds⟩
  | finalizeExecution =>
      obtain ⟨_, hacts⟩ := finalizeExecution_performs ho h
      exact ⟨_, hacts, rfl⟩
  | closeTokenDist =>
      obtain ⟨_, hacts⟩ := closeTokenDist_performs ho hp h
      exact ⟨_, hacts, rfl⟩

/-- An accepted instruction on another vault interferes with the estate of `o` at
    most, and moves nothing out of it. -/
theorem exec_bystander {i : Instruction} (hs : s.Sound c) (ho : i.vaultKey ≠ .vault o)
    (h : exec c i s = .ok s') : Performs c o s.fresh [⟨.interfere, []⟩] s' := by
  obtain ⟨o', hvault⟩ := exec_homed hs h
  have hsign := (exec_addressed hs.regular h).1
  have hfoot := exec_confined hs.regular h
  rw [hvault] at ho hfoot
  have hne : o ≠ o' := fun heq => ho (by rw [heq])
  have hwithin : ¬ Pubkey.Within (.vault o') (.vault o) := by
    intro hin
    cases hin
    exact hne rfl
  have hat : ∀ m account, s.tokenAccounts (canonicalAta c (.vault o) m) = some account →
      account.owner ≠ .vault o' := by
    intro m account hacc howner
    rw [hs.regular.vaultAtas o m _ account hacc] at howner
    exact hne (Pubkey.vault.inj howner)
  have hsame : s'.estate c o = { s.estate c o with
      now := s.now
      lamports := s'.lamports (.vault o)
      holding := fun m => s'.tokenAmounts (canonicalAta c (.vault o) m) } := by
    simp only [World.estate, hfoot.now, fresh_now, Estate.mk.injEq, true_and]
    refine ⟨hfoot.vaultConfigs _ (by simpa using hne), hfoot.heartbeatRecords _ (by simpa using hne),
      hfoot.assetPlans _ (by simpa using hne), hfoot.executionLogs _ (by simpa using hne), ?_,
      trivial⟩
    funext m
    exact hfoot.tokenDists _ (by simp [hne])
  refine .single ?_ ?_
  · rw [hsame]
    refine .interfere (E := s.estate c o) le_rfl ?_ fun m => ?_
    · exact hfoot.lamports _ (Pubkey.ne_vault_of_canSign hsign).symm hwithin
    · cases hacc : s.tokenAccounts (canonicalAta c (.vault o) m) with
      | none => exact (hfoot.vacant _ hacc).ge
      | some account => exact (hfoot.tokens _ account hacc (hat m account hacc)).2
  · obtain ⟨ms, hms, hfunded⟩ := hfoot.moved
    rw [hms, List.filter_append, List.append_right_inj, List.filter_eq_nil_iff]
    intro mv hmv hleaves
    have hf := (hfunded mv hmv).1
    unfold Movement.Funded at hf
    unfold Movement.leaves at hleaves
    cases hasset : mv.asset with
    | sol =>
        simp only [hasset, decide_eq_true_eq] at hf hleaves
        rw [hleaves] at hf
        exact hf.elim (Pubkey.ne_vault_of_canSign hsign).symm hwithin
    | token m =>
        simp only [hasset, decide_eq_true_eq] at hf hleaves
        obtain ⟨program, hacc⟩ := hf
        rw [hleaves] at hacc
        exact hat m _ hacc rfl

/-- The environment takes nothing from a vault. -/
theorem environment_interferes (hs : s.Sound c) (h : Environment c s s') :
    Estate.Step c o (s.estate c o) ⟨.interfere, []⟩ (s'.estate c o) := by
  have hsame : s'.estate c o = { s.estate c o with
      now := s'.now
      lamports := s'.lamports (.vault o)
      holding := fun m => s'.tokenAmounts (canonicalAta c (.vault o) m) } := by
    simp only [World.estate, h.vaultConfigs, h.heartbeatRecords, h.assetPlans, h.executionLogs,
      h.tokenDists]
  rw [hsame]
  refine .interfere (E := s.estate c o) h.clock (h.lamports _ trivial) fun m => ?_
  cases hacc : s.tokenAccounts (canonicalAta c (.vault o) m) with
  | none =>
      change s.tokenAmounts _ ≤ _
      rw [hs.regular.vacant _ hacc]
      exact Nat.zero_le _
  | some account =>
      have heq := hs.regular.vaultAtas o m _ account hacc
      exact (h.vaultTokens _ account o hacc (by rw [heq]; rfl) (by rw [heq])).2

/-- The estate steps that answer an event. -/
def Answers (c : Cluster) (o : Pubkey) (e : Event) (acts : List Act) : Prop :=
  acts.flatMap (·.moves) = e.moved.filter (Movement.leaves c o) ∧
  match e with
  | .executed i _ =>
    if i.vaultKey = .vault o then i.Unfolds (acts.map (·.deed)) else acts = [⟨.interfere, []⟩]
  | .rejected _ _ => acts = []
  | .environment => acts = [⟨.interfere, []⟩]

/-- Each step of the system is a run of the estate of each owner. -/
theorem step_refines {e : Event} (hs : s.Sound c) (h : Step c s e s') (o : Pubkey) :
    ∃ acts, Trace (Estate.Step c o) (s.estate c o) acts (s'.estate c o) ∧ Answers c o e acts := by
  cases h with
  | rejected => exact ⟨[], .nil _, by simp [Event.moved], rfl⟩
  | environment henv =>
      exact ⟨_, .single (environment_interferes hs henv), by simp [Event.moved], rfl⟩
  | @executed i _ _ hexec =>
      by_cases ho : i.vaultKey = .vault o
      · obtain ⟨acts, hacts, hdeeds⟩ := exec_performs hs.regular ho hexec
        refine ⟨acts, hacts.run, ?_, ?_⟩
        · simpa [Event.moved] using hacts.moved.symm
        · simpa [ho] using hdeeds
      · have hacts := exec_bystander hs ho hexec
        refine ⟨_, hacts.run, ?_, ?_⟩
        · simpa [Event.moved] using hacts.moved.symm
        · simp [ho]

/-- So is each run. -/
theorem run_refines {es : List Event} (hs : s.Sound c) (h : Trace (Step c) s es s') (o : Pubkey) :
    ∃ actss, List.Forall₂ (Answers c o) es actss ∧
      Trace (Estate.Step c o) (s.estate c o) actss.flatten (s'.estate c o) := by
  have hsound := h.strengthen (P := World.Sound c) (fun _ _ _ hs hstep => hs.step hstep) hs
  exact hsound.simulate (f := fun t : World => t.estate c o)
    fun _ _ _ hstep => step_refines hstep.2.1 hstep.1 o

end DeadMansVault
