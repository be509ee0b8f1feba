-- SUMMARY: SOL solvency over all runs of an execution, and the failure that it rules out.
import DeadMansVault.Guarantees.Freeze

/-!
# SOL solvency

From `begin_execution` to the close of the vault its lamports cover the rent and
every unpaid share; when the vault was funded at the beginning they cover the
unpaid bequests and the bounty as well. So the unclamped subtraction of
`execute_sol_shares` never falls short.
-/

namespace DeadMansVault

open World

variable {c : Cluster} {o : Pubkey} {s s' : World}

/-! ## No share falls short -/

/-- With the share covered, a turn of the loop does not run out of lamports. -/
theorem paySolShare_ne_insufficient {vaultKey logKey : Pubkey} {benefs : List Beneficiary}
    {snapshot : Nat} {entry : Nat × AccountMeta} {l : ExecutionLog} (hp : s.Regular c)
    (hl : s.executionLogs logKey = some l)
    (hcov : ∀ b, benefs[entry.1]? = some b → Bitmask.test l.solPaidMask entry.1 = false →
      shareAmount snapshot b.shareBps ≤ s.lamports vaultKey) :
    paySolShare vaultKey logKey benefs snapshot s entry ≠
      .error (.vault .insufficientVaultBalance) := by
  intro h
  simp only [paySolShare, Except.bind_eq_error, okOr_eq_error, okOr_eq_ok, loadExecutionLog, hl,
    reduceCtorEq, ProgramError.vault.injEq, and_false, false_or, Option.some.injEq] at h
  obtain ⟨b, hb, h⟩ := h
  obtain ⟨_, rfl, h⟩ := h
  split at h
  · cases h
  · rename_i hclear
    have hle := hcov b hb (by simpa using hclear)
    simp only [Except.bind_eq_error, require_eq_error, reduceCtorEq, ProgramError.vault.injEq,
      and_false, false_or] at h
    obtain ⟨-, -, -, -, h⟩ := h
    split at h
    · simp only [payLamports, transferLamports, Except.bind_eq_error, require_eq_error,
        reduceCtorEq, ProgramError.vault.injEq, and_false, false_or, and_true] at h
      have hfit : Function.update s.lamports vaultKey _ entry.2.key + _ ≤ u64Max :=
        hp.lamports_fit hle
      simp [hle, hfit, pure, Except.pure] at h
    · cases h

/-- What the loop of `execute_sol_shares` keeps at each turn. -/
structure SharesCovered (c : Cluster) (o : Pubkey) (v : VaultConfig) (snapshot : Nat)
    (s : World) : Prop where
  regular : s.Regular c
  config : s.vaultConfigs (.vault o) = some v
  log : ∃ l, s.executionLogs (.execution (.vault o)) = some l ∧ l.solSnapshot = snapshot
  lawful : (s.estate c o).Lawful c o
  solvent : (s.estate c o).Solvent c

theorem executeSolShares_ne_insufficient {ctx : ExecuteSolShares} {indices : List Nat}
    (ho : ctx.vaultConfig = .vault o) (hp : s.Regular c) (hlaw : (s.estate c o).Lawful c o)
    (hsolv : (s.estate c o).Solvent c) :
    executeSolShares ctx indices s ≠ .error (.vault .insufficientVaultBalance) := by
  intro h
  simp only [executeSolShares, Except.bind_eq_error, require_eq_error, okOr_eq_error,
    requireSigner, requireSeeds, loadVaultConfig, loadExecutionLog, okOr_eq_ok, require_eq_ok,
    reduceCtorEq, ProgramError.vault.injEq, and_false, false_or, exists_const] at h
  obtain ⟨-, v, hv, l, hl, -, hexec, hlog, -, -, h⟩ := h
  rw [hlog] at hl h
  rw [ho] at hv hl h
  refine foldlM_ne_error (P := SharesCovered c o v l.solSnapshot) ?_ ?_
    ⟨hp, hv, ⟨l, hl, rfl⟩, hlaw, hsolv⟩ h
  · rintro t entry t' ⟨hp, hv, ⟨l', hl', hsnap⟩, hlaw, hsolv⟩ hturn
    have hfoot : Confined c (.vault o) (.vault o) t t' := paySolShare_confined hturn
    rw [← hsnap] at hturn
    obtain ⟨acts, l'', hacts, -, hv', hl'', hsnap'⟩ := paySolShare_performs hv hexec hl' hturn
    have hboth := hacts.run.preserves (P := fun E => E.Lawful c o ∧ E.Solvent c)
      (fun _ _ _ hE hstep => ⟨hE.1.step hstep, hE.2.step hE.1 hstep⟩) ⟨hlaw, hsolv⟩
    exact ⟨hfoot.regular hp, hv', ⟨l'', hl'', hsnap'.trans hsnap⟩, hboth.1, hboth.2⟩
  · rintro t entry ⟨hp, hv, ⟨l', hl', hsnap⟩, hlaw, hsolv⟩
    refine paySolShare_ne_insufficient hp hl' fun b hb hclear => ?_
    have hle := Estate.Solvent.share_le hlaw hsolv hv hl' hb hclear
    rw [hsnap] at hle
    exact (Nat.le_add_left _ _).trans hle

/-! ## The invariant -/

/-- Beginning an execution is one step of the estate. -/
theorem begin_step {ctx : BeginExecution} (hs : s.Sound c) (ho : ctx.vaultConfig = .vault o)
    (h : exec c (.beginExecution ctx) s = .ok s') :
    Estate.Step c o (s.estate c o) ⟨.begin, []⟩ (s'.estate c o) := by
  have hacts := (beginExecution_performs ho hs.regular.fresh h).run
  obtain ⟨_, hstep, hnil⟩ := Trace.cons_iff.mp hacts
  obtain rfl := Trace.nil_iff.mp hnil
  exact hstep

/-- **SOL solvency.** After `begin_execution`, and until the vault is closed, its
    lamports cover the rent and the unpaid shares, and the unpaid bequests and the
    bounty too when it was funded; so `execute_sol_shares` never finds the vault
    short, and no step but the close leaves it below its rent. -/
theorem sol_solvency {ctx : BeginExecution} {v : VaultConfig} {s₁ : World} {es : List Event}
    (hreach : Reachable c s) (ho : ctx.vaultConfig = .vault o)
    (hv : s.vaultConfigs (.vault o) = some v) (hbegin : exec c (.beginExecution ctx) s = .ok s₁)
    (hrun : Trace (Step c) s₁ es s') (hopen : ∀ e ∈ es, e.closes o = false) :
    (∃ v' l, s'.vaultConfigs (.vault o) = some v' ∧
      s'.executionLogs (.execution (.vault o)) = some l ∧
      c.minimumBalance VaultConfig.space + Estate.unpaidShares v' l ≤ s'.lamports (.vault o) ∧
      (bequeathed ((s.estate c o).registered v) .default + v.keeperBounty ≤
          s.lamports (.vault o) - c.minimumBalance VaultConfig.space →
        c.minimumBalance VaultConfig.space + Estate.unpaidShares v' l +
          (s'.estate c o).unpaidBequests + (if v'.executed then 0 else v'.keeperBounty) ≤
          s'.lamports (.vault o))) ∧
    (∀ ctx' indices, ctx'.vaultConfig = .vault o →
      exec c (.executeSolShares ctx' indices) s' ≠ .error (.vault .insufficientVaultBalance)) ∧
    ∀ e s'', Step c s' e s'' → e.closes o = false →
      c.minimumBalance VaultConfig.space ≤ s''.lamports (.vault o) := by
  have hlaw := hreach.lawful o
  have hstep := begin_step hreach.sound ho hbegin
  have hreach₁ : Reachable c s₁ := hreach.step (.executed hbegin)
  have hlaw₁ := hreach₁.lawful o
  have hreach' := hreach₁.trace hrun
  obtain ⟨w, hb, hw, -, hnone, hexec, -, heq⟩ := hstep.begin_eq rfl
  obtain rfl : v = w := by
    have hsome : some v = some w := hv.symm.trans hw
    simpa using hsome
  have hv₁ : (s₁.estate c o).config = some v := by rw [heq]; exact hv
  obtain ⟨l₁, hl₁⟩ : ∃ l, (s₁.estate c o).log = some l := ⟨_, congrArg Estate.log heq⟩
  have hdue := hlaw₁.due hl₁
  have hproceeds := due_proceeds hreach₁ hdue hrun hopen
  obtain ⟨v', hv', -⟩ := hproceeds.config v hv₁
  obtain ⟨l', hl', -⟩ := hproceeds.log l₁ hl₁
  have hsolv' := hreach'.solvent o
  refine ⟨⟨v', l', hv', hl', hsolv'.rent_add_unpaid_le hv' hl', fun hfund => ?_⟩, ?_, ?_⟩
  · have hcov : Estate.Covers c (s₁.estate c o) v l₁ := by
      rw [heq] at hl₁ ⊢
      cases hl₁
      exact .of_funded hlaw hw hnone hexec rfl rfl hfund
    obtain ⟨actss, hans, hacts⟩ := run_refines hreach₁.sound hrun o
    obtain ⟨w, k, hw, hk, hcov'⟩ := hcov.run hlaw₁ hacts
      (forall_acts hans fun e he acts hacts => hacts.not_close (hopen e he)) hv₁ hl₁
    obtain rfl : v' = w := by simpa [hv'] using hw
    obtain rfl : l' = k := by simpa [hl'] using hk
    have hrent := hsolv'.rent v' hv'
    change _ ≤ (s'.estate c o).lamports
    unfold Estate.Covers Pot.Covered at hcov'
    unfold Estate.unpaidShares Estate.unpaidBequests
    omega
  · intro ctx' indices ho' hfail
    exact executeSolShares_ne_insufficient ho' hreach'.sound.regular.fresh (hreach'.lawful o)
      hsolv' hfail
  · intro e s'' hstep' hclose
    obtain ⟨v'', hv'', -⟩ := (due_proceeds hreach' (hproceeds.due hdue) (.single hstep')
      (by simpa using hclose)).config v' hv'
    exact ((hreach'.step hstep').solvent o).rent v'' hv''

/-- On the sample vault, whose execution is funded, after its first payouts. -/
theorem sol_solvency_sample :
    let s' := Sample.begun.play Sample.cluster Sample.payouts
    ∃ v' l, s'.vaultConfigs Sample.vault = some v' ∧
      s'.executionLogs (.execution Sample.vault) = some l ∧
      Sample.cluster.minimumBalance VaultConfig.space + Estate.unpaidShares v' l +
        (s'.estate Sample.cluster Sample.owner).unpaidBequests +
        (if v'.executed then 0 else v'.keeperBounty) ≤ s'.lamports Sample.vault := by
  intro s'
  have hrun : Trace (fun t e t' => Step Sample.cluster t e t' ∧ (!e.closes Sample.owner) = true)
      Sample.begun _ s' := Sample.begun_reachable.sound.play (by decide +kernel)
  obtain ⟨⟨v', l, hv', hl, -, hfunded⟩, -, -⟩ := sol_solvency Sample.due_reachable rfl
    Sample.due_config Sample.due_begun (hrun.mono fun _ _ _ hstep => hstep.1) (by decide +kernel)
  exact ⟨v', l, hv', hl, hfunded (by decide +kernel)⟩

end DeadMansVault
