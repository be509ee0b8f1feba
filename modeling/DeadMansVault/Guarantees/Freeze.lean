-- SUMMARY: The dead-man freeze: what no instruction can do past the deadline, and what none can do before it.
import DeadMansVault.Guarantees.Distributions
import DeadMansVault.Program.Scenario

/-!
# The freeze

Past the deadline the terms of a vault are fixed until it is closed, and value
leaves it only by the instructions of its execution. Before the deadline only
the owner and the agent can touch it.
-/

namespace DeadMansVault

open World

variable {c : Cluster} {o : Pubkey} {s s' : World}

/-- A due vault proceeds through every run that does not close it. -/
theorem due_proceeds {es : List Event} (hreach : Reachable c s) (hdue : (s.estate c o).Due)
    (hrun : Trace (Step c) s es s') (hopen : ∀ e ∈ es, e.closes o = false) :
    (s.estate c o).Proceeds (s'.estate c o) := by
  obtain ⟨actss, hans, hacts⟩ := run_refines hreach.sound hrun o
  exact hdue.proceeds_run (hreach.lawful o) hacts
    (forall_acts hans fun e he acts hacts => hacts.not_close (hopen e he))

/-- From a due vault value leaves only by the instructions of the execution. -/
theorem due_drains {e : Event} (hreach : Reachable c s) (hdue : (s.estate c o).Due)
    (hstep : Step c s e s') (hdrain : Drains o s e s') :
    ∃ i moved, e = .executed i moved ∧ i.vaultKey = .vault o ∧
      (i.kind = .payout ∨ i.kind = .finalize ∨ i.kind = .closeDist ∨ i.kind = .close) := by
  have hlaw := hreach.lawful o
  obtain ⟨v, h, hv, hh, hdl⟩ := hdue
  cases hstep with
  | rejected => simp [Drains, Event.moved] at hdrain
  | environment henv =>
      rcases hdrain with ⟨_, hmv, -⟩ | hlow | ⟨k, account, hacc, hprogram, howner, hlow⟩
      · simp [Event.moved] at hmv
      · exact absurd hlow (not_lt.mpr (henv.lamports _ trivial))
      · exact absurd hlow (not_lt.mpr (henv.vaultTokens k account o hacc hprogram howner).2)
  | @executed i _ _ hexec =>
      by_cases ho : i.vaultKey = .vault o
      · have hgate := exec_gate hreach.sound hexec
        rw [ho] at hgate
        refine ⟨i, _, rfl, ho, ?_⟩
        have hpast : ∀ v' h', Unfrozen s (.vault o) v' h' → False := fun v' h' hunf =>
          Estate.Due.not_before ⟨v, h, hv, hh, hdl⟩ hunf.config hunf.record hunf.before
        cases hkind : i.kind with
        | setup =>
            rw [hkind] at hgate
            have hnone : (s.estate c o).config = none := hgate
            rw [hnone] at hv
            cases hv
        | owner =>
            rw [hkind] at hgate
            obtain ⟨v', h', hunf, -⟩ := hgate
            exact (hpast v' h' hunf).elim
        | agent =>
            rw [hkind] at hgate
            obtain ⟨v', h', hunf, -⟩ := hgate
            exact (hpast v' h' hunf).elim
        | closeRevoked =>
            rw [hkind] at hgate
            obtain ⟨v', hv', hflags⟩ := hgate
            exact absurd hflags (hlaw.active_or_executed hv')
        | begin => exact absurd hdrain (not_drains_begin hreach.sound (.inl hkind) hexec)
        | openDist => exact absurd hdrain (not_drains_begin hreach.sound (.inr hkind) hexec)
        | payout => simp
        | finalize => simp
        | closeDist => simp
        | close => simp
      · exact absurd hdrain (not_drains_bystander hreach.sound ho hexec)

/-- **Dead-man freeze.** Once the deadline has come, the terms of the vault are
    fixed until it is closed, and value leaves it only by the four payouts, the
    finalize and the closes. -/
theorem dead_man_freeze {es : List Event} {v : VaultConfig} {h : HeartbeatRecord}
    (hreach : Reachable c s) (hv : s.vaultConfigs (.vault o) = some v)
    (hh : s.heartbeatRecords (.heartbeat (.vault o)) = some h)
    (hdue : h.lastHeartbeat + v.heartbeatInterval + v.gracePeriod ≤ s.now)
    (hrun : Trace (Step c) s es s') (hopen : ∀ e ∈ es, e.closes o = false) :
    (∃ v' h', s'.vaultConfigs (.vault o) = some v' ∧
      s'.heartbeatRecords (.heartbeat (.vault o)) = some h' ∧
      v'.owner = v.owner ∧ v'.agentPubkey = v.agentPubkey ∧
      v'.heartbeatInterval = v.heartbeatInterval ∧ v'.gracePeriod = v.gracePeriod ∧
      v'.beneficiaries = v.beneficiaries ∧ v'.isMutable = v.isMutable ∧
      v'.keeperBounty = v.keeperBounty ∧ v'.hasAssetPlan = v.hasAssetPlan ∧
      (s'.assetPlans (.assetPlan (.vault o))).map (·.assignments) =
        (s.assetPlans (.assetPlan (.vault o))).map (·.assignments) ∧
      h'.lastHeartbeat = h.lastHeartbeat) ∧
    ∀ e s'', Step c s' e s'' → Drains o s' e s'' →
      ∃ i moved, e = .executed i moved ∧ i.vaultKey = .vault o ∧
        (i.kind = .payout ∨ i.kind = .finalize ∨ i.kind = .closeDist ∨ i.kind = .close) := by
  have hdue : (s.estate c o).Due := ⟨v, h, hv, hh, hdue⟩
  have hproceeds := due_proceeds hreach hdue hrun hopen
  refine ⟨?_, fun e s'' hstep => due_drains (hreach.trace hrun) (hproceeds.due hdue) hstep⟩
  obtain ⟨v', hv', heq, -⟩ := hproceeds.config v hv
  refine ⟨v', h, hv', hproceeds.heartbeat.trans hh, ?_⟩
  rw [heq]
  exact ⟨rfl, rfl, rfl, rfl, rfl, rfl, rfl, rfl, hproceeds.plan, rfl⟩

/-- The bequests of the sample vault are still the planned ones when its payouts are made. -/
theorem dead_man_freeze_sample :
    let s' := Sample.due.play Sample.cluster
      (.run (.beginExecution Sample.beginExecution) :: Sample.payouts)
    (s'.assetPlans (.assetPlan Sample.vault)).map (·.assignments) =
      (Sample.due.assetPlans (.assetPlan Sample.vault)).map (·.assignments) := by
  intro s'
  have hrun : Trace (fun t e t' => Step Sample.cluster t e t' ∧ (!e.closes Sample.owner) = true)
      Sample.due _ s' := Sample.due_reachable.sound.play (by decide +kernel)
  obtain ⟨⟨_, _, -, -, -, -, -, -, -, -, -, -, hplan, -⟩, -⟩ := dead_man_freeze Sample.due_reachable
    Sample.due_config Sample.due_heartbeat (by decide +kernel)
    (hrun.mono fun _ _ _ hstep => hstep.1) (by decide +kernel)
  exact hplan

/-! ## Before the deadline -/

/-- The five accounts of the vault of `o` are the same in both worlds. -/
structure Untouched (o : Pubkey) (s s' : World) : Prop where
  config : s'.vaultConfigs (.vault o) = s.vaultConfigs (.vault o)
  heartbeat : s'.heartbeatRecords (.heartbeat (.vault o)) =
    s.heartbeatRecords (.heartbeat (.vault o))
  plan : s'.assetPlans (.assetPlan (.vault o)) = s.assetPlans (.assetPlan (.vault o))
  log : s'.executionLogs (.execution (.vault o)) = s.executionLogs (.execution (.vault o))
  dists : ∀ m, s'.tokenDists (.tokenDist (.vault o) m) = s.tokenDists (.tokenDist (.vault o) m)

/-- An instruction on another vault leaves the accounts of this one alone. -/
theorem untouched_bystander {i : Instruction} (hs : s.Sound c) (ho : i.vaultKey ≠ .vault o)
    (h : exec c i s = .ok s') : Untouched o s s' := by
  have hacts := (exec_bystander hs ho h).run
  obtain ⟨E, hstep, hnil⟩ := Trace.cons_iff.mp hacts
  obtain rfl := Trace.nil_iff.mp hnil
  have hsame := (hstep.interfere_eq rfl).1
  exact ⟨congrArg Estate.config hsame, congrArg Estate.heartbeat hsame,
    congrArg Estate.plan hsame, congrArg Estate.log hsame,
    fun m => congrFun (congrArg Estate.dists hsame) m⟩

/-- With the counter exact, no account of an execution exists before the deadline. -/
theorem alive_empty {v : VaultConfig} {h : HeartbeatRecord} (hlaw : (s.estate c o).Lawful c o)
    (hT : (s.estate c o).Tallied) (hv : s.vaultConfigs (.vault o) = some v)
    (hh : s.heartbeatRecords (.heartbeat (.vault o)) = some h) (hnow : s.now < v.deadlineAt h) :
    s.executionLogs (.execution (.vault o)) = none ∧
      ∀ m, s.tokenDists (.tokenDist (.vault o) m) = none := by
  have hl := hlaw.log_none (E := s.estate c o) hv hh hnow
  exact ⟨hl, hT.no_dist hl⟩

/-- Before the deadline every accepted instruction on the vault is signed by the
    owner, or is a heartbeat signed by the agent. -/
theorem alive_gate {i : Instruction} {v : VaultConfig} {h : HeartbeatRecord} (hs : s.Sound c)
    (hlaw : (s.estate c o).Lawful c o) (hT : (s.estate c o).Tallied)
    (hv : s.vaultConfigs (.vault o) = some v)
    (hh : s.heartbeatRecords (.heartbeat (.vault o)) = some h) (hnow : s.now < v.deadlineAt h)
    (ho : i.vaultKey = .vault o) (hexec : exec c i s = .ok s') :
    i.kind = .owner ∧ i.signer = v.owner ∨ i.kind = .agent ∧ i.signer = v.agentPubkey := by
  obtain ⟨hlog, hdists⟩ := alive_empty hlaw hT hv hh hnow
  have hgate := exec_gate hs hexec
  rw [ho] at hgate
  have hnolog : ∀ v' l, ¬ Executing s (.vault o) v' l := by
    intro v' l hx
    rw [hx.log] at hlog
    cases hlog
  cases hkind : i.kind <;> rw [hkind] at hgate
  case setup =>
    rw [show s.vaultConfigs (.vault o) = none from hgate] at hv
    cases hv
  case owner =>
    obtain ⟨v', _, hunf, hsign⟩ := hgate
    obtain rfl : v = v' := by simpa [hv] using hunf.config
    exact .inl ⟨rfl, hsign⟩
  case agent =>
    obtain ⟨v', _, hunf, hsign⟩ := hgate
    obtain rfl : v = v' := by simpa [hv] using hunf.config
    exact .inr ⟨rfl, hsign⟩
  case closeRevoked =>
    obtain ⟨v', hv', hflags⟩ := hgate
    exact absurd hflags (hlaw.active_or_executed hv')
  case begin =>
    obtain ⟨v', h', hv', hh', hdl⟩ := hgate
    obtain rfl : v = v' := by simpa [hv] using hv'
    obtain rfl : h = h' := by simpa [hh] using hh'
    omega
  case openDist =>
    obtain ⟨v', l, hx⟩ := hgate
    exact (hnolog v' l hx).elim
  case payout =>
    rcases hgate with ⟨v', l, hx⟩ | ⟨m, d, hd⟩
    · exact (hnolog v' l hx).elim
    · rw [hdists m] at hd
      cases hd
  case finalize =>
    obtain ⟨v', l, hx⟩ := hgate
    exact (hnolog v' l hx).elim
  case closeDist =>
    obtain ⟨v', hv', hexec'⟩ := hgate
    have hnot := hlaw.not_executed (E := s.estate c o) hv' hlog
    rw [hexec'] at hnot
    cases hnot
  case close =>
    obtain ⟨v', l, hx⟩ := hgate
    exact (hnolog v' l hx).elim

/-- **No distribution before the deadline.** In every history in which fewer than
    65536 distributions of the vault are ever open at once, an instruction that
    neither the owner signs nor, for a heartbeat, the agent, leaves a vault that is
    not yet due alone; and no payout runs for it, whoever signs. -/
theorem no_distribution_before_deadline {s₀ : World} {es : List Event} {i : Instruction}
    {v : VaultConfig} {h : HeartbeatRecord} (hinit : Initial c s₀)
    (hrun : Trace (fun s e s' => Step c s e s' ∧ (s'.openDists o).encard < 65536) s₀ es s)
    (hv : s.vaultConfigs (.vault o) = some v)
    (hh : s.heartbeatRecords (.heartbeat (.vault o)) = some h)
    (hnow : s.now < h.lastHeartbeat + v.heartbeatInterval + v.gracePeriod)
    (hexec : exec c i s = .ok s') :
    (i.signer ≠ v.owner → ¬ (i.kind = .agent ∧ i.signer = v.agentPubkey) →
      Untouched o s s' ∧ ¬ Drains o s (.executed i s'.moved) s') ∧
    (i.vaultKey = .vault o → i.kind ≠ .payout) := by
  obtain ⟨hs, hlaw, hT⟩ := tallied_trace hinit (few_not_overflows hinit hrun)
  by_cases ho : i.vaultKey = .vault o
  · have hgate := alive_gate hs hlaw hT hv hh hnow ho hexec
    refine ⟨fun howner hagent => ?_, fun _ hpay => ?_⟩
    · rcases hgate with ⟨-, hsign⟩ | hsign
      · exact absurd hsign howner
      · exact absurd hsign hagent
    · rw [hpay] at hgate
      simp at hgate
  · exact ⟨fun _ _ => ⟨untouched_bystander hs ho hexec, not_drains_bystander hs ho hexec⟩,
      fun hown => absurd hown ho⟩

/-! ## A vault with two lives -/

theorem initializeVault_tokenDists {ctx : InitializeVault} {params : InitializeVaultParams}
    (h : exec c (.initializeVault ctx params) s = .ok s') (k : Pubkey) :
    s'.tokenDists k = s.tokenDists k := by
  obtain ⟨_, _, _, _, _, -, -, -, -, -, -, -, -, -, -, -, -, -, -, -, -, -, rfl⟩ :=
    initializeVault_ok h
  rfl

theorem revokeVault_tokenDists {ctx : RevokeVault} (h : exec c (.revokeVault ctx) s = .ok s')
    (k : Pubkey) : s'.tokenDists k = s.tokenDists k := by
  obtain ⟨_, _, -, -, -, -, -, -, -, rfl⟩ := revokeVault_ok h
  unfold World.closePlan
  split <;> simp [World.closePair]

theorem few_of_none (h : ∀ k, s.tokenDists k = none) : (s.openDists o).encard < 65536 := by
  have hnone : s.openDists o = ∅ := by simp [World.openDists, h]
  rw [hnone, Set.encard_empty]
  exact pos_of_ne_zero (by norm_num)

/-- The owner creates the sample vault, revokes it, and creates it again. Someone else's new vault
    leaves it alone. -/
theorem no_distribution_before_deadline_sample :
    let create := Sample.initializeVault Sample.beneficiaries
    let revoke := .revokeVault ⟨Sample.owner, Sample.vault, .heartbeat Sample.vault, none⟩
    let s₁ := Sample.genesis.world.cue Sample.cluster (.run create)
    let s₂ := s₁.cue Sample.cluster (.run revoke)
    let s := s₂.cue Sample.cluster (.run create)
    let s' := s.cue Sample.cluster (.run Sample.strangerVault)
    Untouched Sample.owner s s' ∧
      ¬ Drains Sample.owner s (.executed Sample.strangerVault s'.moved) s' := by
  intro create revoke s₁ s₂ s s'
  have hinit : Initial Sample.cluster Sample.genesis.world :=
    Genesis.initial Sample.genesis_consistent
  have hcreate : exec Sample.cluster create Sample.genesis.world = .ok s₁ :=
    exec_cue (by decide +kernel)
  have hrevoke : exec Sample.cluster revoke s₁ = .ok s₂ := exec_cue (by decide +kernel)
  have hagain : exec Sample.cluster create s₂ = .ok s := exec_cue (by decide +kernel)
  have hother : exec Sample.cluster Sample.strangerVault s = .ok s' := exec_cue (by decide +kernel)
  -- No distribution is begun on the way.
  have h₁ : ∀ k, s₁.tokenDists k = none := fun k =>
    (initializeVault_tokenDists hcreate k).trans (hinit.tokenDists k)
  have h₂ : ∀ k, s₂.tokenDists k = none := fun k => (revokeVault_tokenDists hrevoke k).trans (h₁ k)
  have h₃ : ∀ k, s.tokenDists k = none := fun k =>
    (initializeVault_tokenDists hagain k).trans (h₂ k)
  have hbefore := no_distribution_before_deadline (o := Sample.owner) hinit
    (.cons ⟨.executed hcreate, few_of_none h₁⟩ (.cons ⟨.executed hrevoke, few_of_none h₂⟩
      (.single ⟨.executed hagain, few_of_none h₃⟩)))
    (v := { Sample.config with hasAssetPlan := false }) (by decide +kernel)
    (h := Sample.heartbeat) (by decide +kernel) (by decide +kernel) hother
  exact hbefore.1 (by decide) (by decide)

end DeadMansVault
