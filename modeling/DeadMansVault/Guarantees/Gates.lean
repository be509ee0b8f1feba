-- SUMMARY: The invariants in every reachable world, the gate of each kind of instruction, and what can take from a vault.
import DeadMansVault.Estate.Distributions
import DeadMansVault.Estate.Payouts
import DeadMansVault.Estate.Refinement

/-!
# Gates of the instructions

The 21 instructions fall into ten kinds, and an accepted instruction of a kind
has passed the gate of the kind. Together with the invariants of the estates,
the gates say which kinds can run when.
-/

namespace DeadMansVault

open World

variable {c : Cluster} {o : Pubkey} {s s' : World}

/-! ## The invariants of reachable worlds -/

theorem Initial.estate (h : Initial c s) (o : Pubkey) :
    (s.estate c o).config = none ∧ (s.estate c o).heartbeat = none ∧
      (s.estate c o).plan = none ∧ (s.estate c o).log = none ∧
      ∀ m, (s.estate c o).dists m = none :=
  ⟨h.vaultConfigs _, h.heartbeatRecords _, h.assetPlans _, h.executionLogs _,
    fun _ => h.tokenDists _⟩

theorem Reachable.lawful (h : Reachable c s) (o : Pubkey) : (s.estate c o).Lawful c o := by
  obtain ⟨s₀, es, hinit, hrun⟩ := h
  obtain ⟨hc, hh, hp, hl, hd⟩ := hinit.estate o
  obtain ⟨actss, -, hacts⟩ := run_refines (Reachable.initial hinit).sound hrun o
  exact (Estate.Lawful.empty hc hh hp hl hd).run hacts

theorem Reachable.solvent (h : Reachable c s) (o : Pubkey) : (s.estate c o).Solvent c := by
  obtain ⟨s₀, es, hinit, hrun⟩ := h
  obtain ⟨hc, hh, hp, hl, hd⟩ := hinit.estate o
  obtain ⟨actss, -, hacts⟩ := run_refines (Reachable.initial hinit).sound hrun o
  have hboth := hacts.preserves (P := fun E => E.Lawful c o ∧ E.Solvent c)
    (fun _ _ _ ⟨hE, hS⟩ hstep => ⟨hE.step hstep, hS.step hE hstep⟩)
    ⟨.empty hc hh hp hl hd, .empty hc⟩
  exact hboth.2

theorem Reachable.paidUp (h : Reachable c s) (o : Pubkey) : (s.estate c o).PaidUp := by
  obtain ⟨s₀, es, hinit, hrun⟩ := h
  obtain ⟨hc, hh, hp, hl, hd⟩ := hinit.estate o
  obtain ⟨actss, -, hacts⟩ := run_refines (Reachable.initial hinit).sound hrun o
  have hboth := hacts.preserves (P := fun E => E.Lawful c o ∧ E.PaidUp)
    (fun _ _ _ ⟨hE, hP⟩ hstep => ⟨hE.step hstep, hP.step hE hstep⟩)
    ⟨.empty hc hh hp hl hd, by simp [Estate.PaidUp, hc]⟩
  exact hboth.2

theorem Reachable.sharesPaid (h : Reachable c s) (o : Pubkey) : (s.estate c o).SharesPaid := by
  obtain ⟨s₀, es, hinit, hrun⟩ := h
  obtain ⟨hc, hh, hp, hl, hd⟩ := hinit.estate o
  obtain ⟨actss, -, hacts⟩ := run_refines (Reachable.initial hinit).sound hrun o
  have hboth := hacts.preserves (P := fun E => E.Lawful c o ∧ E.SharesPaid)
    (fun _ _ _ ⟨hE, hP⟩ hstep => ⟨hE.step hstep, hP.step hE hstep⟩)
    ⟨.empty hc hh hp hl hd, by simp [Estate.SharesPaid, hc]⟩
  exact hboth.2

/-! ## Kinds and gates -/

inductive Kind
  | setup
  /-- Signed by the owner, before the deadline. -/
  | owner
  /-- Signed by the agent, before the deadline. -/
  | agent
  | closeRevoked
  | begin
  | openDist
  /-- The four payouts. -/
  | payout
  | finalize
  | closeDist
  | close
  deriving DecidableEq, Repr

def Instruction.kind : Instruction → Kind
  | initializeVault _ _ => .setup
  | updateVault _ _ => .owner
  | recordHeartbeat _ _ => .agent
  | rotateAgent _ _ => .owner
  | revokeVault _ => .owner
  | closeRevokedVault _ => .closeRevoked
  | closeExecutedVaultByOwner _ => .close
  | closeExecutedVault _ => .close
  | withdrawFromVault _ _ => .owner
  | withdrawSolFromVault _ _ => .owner
  | setAssetPlan _ _ => .owner
  | updateAssetPlan _ _ => .owner
  | clearAssetPlan _ => .owner
  | beginExecution _ => .begin
  | beginTokenDist _ => .openDist
  | executeSpecificAsset _ _ => .payout
  | executeSpecificSol _ _ => .payout
  | executeSolShares _ _ => .payout
  | executeTokenShares _ _ => .payout
  | finalizeExecution _ => .finalize
  | closeTokenDist _ => .closeDist

/-- What an accepted instruction of a kind has found at its vault. -/
def Gate (s : World) (vaultKey signer : Pubkey) : Kind → Prop
  | .setup => s.vaultConfigs vaultKey = none
  | .owner => ∃ v h, Unfrozen s vaultKey v h ∧ signer = v.owner
  | .agent => ∃ v h, Unfrozen s vaultKey v h ∧ signer = v.agentPubkey
  | .closeRevoked => ∃ v, s.vaultConfigs vaultKey = some v ∧ v.active = false ∧ v.executed = false
  | .begin => ∃ v h, s.vaultConfigs vaultKey = some v ∧
      s.heartbeatRecords (.heartbeat vaultKey) = some h ∧ v.deadlineAt h ≤ s.now
  | .openDist => ∃ v l, Executing s vaultKey v l
  | .payout => (∃ v l, Executing s vaultKey v l) ∨
      ∃ m d, s.tokenDists (.tokenDist vaultKey m) = some d
  | .finalize => ∃ v l, Executing s vaultKey v l
  | .closeDist => ∃ v, s.vaultConfigs vaultKey = some v ∧ v.executed = true
  | .close => ∃ v l, Executing s vaultKey v l

theorem exec_gate {i : Instruction} (hs : s.Sound c) (h : exec c i s = .ok s') :
    Gate s i.vaultKey i.signer i.kind := by
  have hp := hs.regular.fresh
  unfold exec Instruction.dispatch at h
  cases i with
  | initializeVault =>
      obtain ⟨_, _, _, _, _, -, -, hnone, -⟩ := initializeVault_ok h
      exact hnone
  | updateVault =>
      obtain ⟨v, _, hb, -, -, hgate, howner, -⟩ := updateVault_ok h
      exact ⟨v, hb, ⟨hgate.1, hgate.2, hgate.3, hgate.4⟩, howner.symm⟩
  | recordHeartbeat =>
      obtain ⟨v, hb, _, -, hgate, -, hagent, -⟩ := recordHeartbeat_ok h
      exact ⟨v, hb, ⟨hgate.1, hgate.2, hgate.3, hgate.4⟩, hagent.symm⟩
  | rotateAgent =>
      obtain ⟨v, _, hb, _, -, hgate, howner, -⟩ := rotateAgent_ok (c := c) h
      exact ⟨v, hb, ⟨hgate.1, hgate.2, hgate.3, hgate.4⟩, howner.symm⟩
  | revokeVault =>
      obtain ⟨v, hb, -, -, hgate, howner, -⟩ := revokeVault_ok h
      exact ⟨v, hb, ⟨hgate.1, hgate.2, hgate.3, hgate.4⟩, howner.symm⟩
  | closeRevokedVault =>
      obtain ⟨v, _, -, -, hv, -, -, hactive, hexec, -⟩ := closeRevokedVault_ok h
      exact ⟨v, hv, hactive, hexec⟩
  | closeExecutedVaultByOwner =>
      obtain ⟨v, l, _, -, hgate, -⟩ := closeExecutedVaultByOwner_ok h
      exact ⟨v, l, hgate.config, hgate.log, hgate.seeds⟩
  | closeExecutedVault =>
      obtain ⟨v, l, _, -, hgate, -⟩ := closeExecutedVault_ok h
      exact ⟨v, l, hgate.config, hgate.log, hgate.seeds⟩
  | withdrawFromVault =>
      obtain ⟨v, hb, _, -, -, hgate, howner, -⟩ := withdrawFromVault_ok h
      exact ⟨v, hb, ⟨hgate.1, hgate.2, hgate.3, hgate.4⟩, howner.symm⟩
  | withdrawSolFromVault =>
      obtain ⟨v, hb, -, -, hgate, howner, -⟩ := withdrawSolFromVault_ok h
      exact ⟨v, hb, ⟨hgate.1, hgate.2, hgate.3, hgate.4⟩, howner.symm⟩
  | setAssetPlan =>
      obtain ⟨v, hb, _, -, -, hgate, howner, -⟩ := setAssetPlan_ok h
      exact ⟨v, hb, ⟨hgate.1, hgate.2, hgate.3, hgate.4⟩, howner.symm⟩
  | updateAssetPlan =>
      obtain ⟨v, hb, -, -, hgate, howner, -⟩ := updateAssetPlan_ok h
      exact ⟨v, hb, ⟨hgate.1, hgate.2, hgate.3, hgate.4⟩, howner.symm⟩
  | clearAssetPlan =>
      obtain ⟨v, hb, -, -, hgate, howner, -⟩ := clearAssetPlan_ok h
      exact ⟨v, hb, ⟨hgate.1, hgate.2, hgate.3, hgate.4⟩, howner.symm⟩
  | beginExecution =>
      obtain ⟨v, hb, _, -, hv, hh, -, -, -, -, -, hdl, -⟩ := beginExecution_ok h
      exact ⟨v, hb, hv, hh, hdl⟩
  | beginTokenDist =>
      obtain ⟨v, l, _, -, hgate, -⟩ := beginTokenDist_ok hp.vacant h
      exact ⟨v, l, hgate.config, hgate.log, hgate.seeds⟩
  | executeSpecificAsset =>
      obtain ⟨v, l, _, _, _, _, _, -, hgate, -⟩ := executeSpecificAsset_ok h
      exact .inl ⟨v, l, hgate.config, hgate.log, hgate.seeds⟩
  | executeSpecificSol =>
      obtain ⟨v, l, _, _, _, -, hgate, -⟩ := executeSpecificSol_ok h
      exact .inl ⟨v, l, hgate.config, hgate.log, hgate.seeds⟩
  | executeSolShares =>
      obtain ⟨v, l, -, hgate, -⟩ := executeSolShares_ok h
      exact .inl ⟨v, l, hgate.config, hgate.log, hgate.seeds⟩
  | executeTokenShares ctx =>
      obtain ⟨_, d, _, -, -, -, -, -, hd, -⟩ := executeTokenShares_ok h
      exact .inr ⟨ctx.mint, d, hd⟩
  | finalizeExecution =>
      obtain ⟨v, l, -, hgate, -⟩ := finalizeExecution_ok h
      exact ⟨v, l, hgate.config, hgate.log, hgate.seeds⟩
  | closeTokenDist =>
      obtain ⟨v, _, _, _, _, _, -, hv, -, hexec, -⟩ := closeTokenDist_ok h
      exact ⟨v, hv, hexec⟩

/-! ## Taking from a vault -/

/-- The movement takes lamports from an account of the vault of `o`, or tokens
    from any token account that the vault owns. -/
def Movement.TakesFrom (o : Pubkey) (s : World) (mv : Movement) : Prop :=
  match mv.asset with
  | .sol => Pubkey.Within (.vault o) mv.source
  | .token _ => ∃ account, s.tokenAccounts mv.source = some account ∧ account.owner = .vault o

/-- Value leaves the vault of `o` in a step: by a movement, or because a balance falls. -/
def Drains (o : Pubkey) (s : World) (e : Event) (s' : World) : Prop :=
  (∃ mv ∈ e.moved, mv.TakesFrom o s) ∨ s'.lamports (.vault o) < s.lamports (.vault o) ∨
  ∃ k account, s.tokenAccounts k = some account ∧ account.program.isSome = true ∧
    account.owner = .vault o ∧ s'.tokenAmounts k < s.tokenAmounts k

theorem Pubkey.Within.not_canSign {k v : Pubkey} (h : Pubkey.Within (.vault v) k) :
    k.canSign = false := by
  cases h <;> rfl

theorem Pubkey.Within.vault_inj {k v v' : Pubkey} (h : Pubkey.Within (.vault v) k)
    (h' : Pubkey.Within (.vault v') k) : v = v' := by
  cases h <;> cases h' <;> rfl

/-- An instruction on another vault takes nothing. -/
theorem not_drains_bystander {i : Instruction} (hs : s.Sound c) (ho : i.vaultKey ≠ .vault o)
    (h : exec c i s = .ok s') : ¬ Drains o s (.executed i s'.moved) s' := by
  obtain ⟨o', hvault⟩ := exec_homed hs h
  have hsign := (exec_addressed hs.regular h).1
  have hfoot := exec_confined hs.regular h
  rw [hvault] at ho hfoot
  have hne : o' ≠ o := fun heq => ho (by rw [heq])
  rintro (⟨mv, hmv, htakes⟩ | hlow | ⟨k, account, hacc, -, howner, hlow⟩)
  · obtain ⟨ms, hms, hfunded⟩ := hfoot.moved
    have hmem : mv ∈ ms := by simpa [Event.moved, hms] using hmv
    have hf := (hfunded mv hmem).1
    unfold Movement.Funded at hf
    unfold Movement.TakesFrom at htakes
    cases hasset : mv.asset with
    | sol =>
        simp only [hasset] at hf htakes
        rcases hf with hf | hf
        · rw [← hf, htakes.not_canSign] at hsign
          cases hsign
        · exact hne (hf.vault_inj htakes)
    | token m =>
        simp only [hasset, fresh_tokenAccounts] at hf htakes
        obtain ⟨program, hacc⟩ := hf
        obtain ⟨account, hacc', howner⟩ := htakes
        rw [hacc, Option.some.injEq] at hacc'
        rw [← hacc'] at howner
        exact hne (Pubkey.vault.inj howner)
  · have hwithin : ¬ Pubkey.Within (.vault o') (.vault o) := by
      intro hin
      cases hin
      exact hne rfl
    have hle := hfoot.lamports _ (Pubkey.ne_vault_of_canSign hsign).symm hwithin
    rw [fresh_lamports] at hle
    omega
  · have hother : account.owner ≠ .vault o' := by
      rw [howner]
      simpa using Ne.symm hne
    have hle := (hfoot.tokens k account hacc hother).2
    rw [fresh_tokenAmounts] at hle
    omega

/-- The two snapshots only take rent from the payer. -/
theorem not_drains_begin {i : Instruction} (hs : s.Sound c)
    (hkind : i.kind = .begin ∨ i.kind = .openDist) (h : exec c i s = .ok s') :
    ¬ Drains o s (.executed i s'.moved) s' := by
  have hsign := (exec_addressed hs.regular h).1
  have hnot : ¬ Pubkey.Within (.vault o) i.signer := by
    intro hin
    rw [hin.not_canSign] at hsign
    cases hsign
  obtain ⟨k, n, hmoved, hlamports, htokens⟩ : ∃ k n,
      s'.moved = [⟨.sol, i.signer, k, k, n, .rent⟩] ∧
      s'.lamports = Ledger.move s.lamports i.signer k n ∧ s'.tokenAmounts = s.tokenAmounts := by
    cases i with
    | beginExecution =>
        obtain ⟨_, _, n, -, -, -, -, -, -, -, -, -, -, rfl⟩ := beginExecution_ok h
        exact ⟨_, n, rfl, rfl, rfl⟩
    | beginTokenDist =>
        obtain ⟨_, _, n, -, -, -, -, -, -, rfl⟩ := beginTokenDist_ok hs.regular.fresh.vacant h
        exact ⟨_, n, rfl, rfl, rfl⟩
    | _ => rcases hkind with hkind | hkind <;> cases hkind
  rintro (⟨mv, hmv, htakes⟩ | hlow | ⟨k, account, -, -, -, hlow⟩)
  · rw [Event.moved, hmoved, List.mem_singleton] at hmv
    subst hmv
    exact hnot htakes
  · rw [hlamports] at hlow
    exact absurd hlow (not_lt.mpr (Ledger.le_move (Pubkey.ne_vault_of_canSign hsign).symm))
  · rw [htokens] at hlow
    exact lt_irrefl _ hlow

end DeadMansVault
