-- SUMMARY: When the server's stage 4 comes at the deadline of the chain, and when it does not.
import DeadMansVault.Guarantees.Registrations
import DeadMansVault.Notify.Poller
import DeadMansVault.Notify.Stages
import DeadMansVault.Program.Gates

/-!
# The stages and the deadline

The chain counts a grace period from the due heartbeat, and the server the
durations that a client has registered. Nothing compares the two.
-/

namespace DeadMansVault.Notify

variable {num : Arithmetic} {stages : Stages}

/-! ## The stage of a registration -/

structure Stages.Positive (stages : Stages) : Prop where
  stage1 : 0 < stages.stage1
  stage2 : 0 < stages.stage2
  stage3 : 0 < stages.stage3

theorem Stages.Positive.stage1_le_second (h : stages.Positive) (num : Arithmetic) :
    (stages.stage1 : WithTop ℚ) ≤ stages.second num :=
  num.le_add _ _ (WithTop.coe_pos.mpr h.stage2)

theorem Stages.Positive.second_le_grace (h : stages.Positive) (num : Arithmetic) :
    stages.second num ≤ stages.grace num :=
  num.le_add _ _ (WithTop.coe_pos.mpr h.stage3)

/-- Stage 4 comes when the registered durations have passed. -/
theorem computeStage_eq_four (num : Arithmetic) (h : stages.Positive)
    (lastHeartbeat interval now : Int) :
    (computeStage num lastHeartbeat interval stages now).stage = 4 ↔
      stages.grace num ≤ seconds (now - (lastHeartbeat + interval)) := by
  have hpos : (0 : WithTop ℚ) < stages.stage1 := WithTop.coe_pos.mpr h.stage1
  have hsecond := h.stage1_le_second num
  have hgrace := h.second_le_grace num
  unfold computeStage
  dsimp only
  by_cases hdue : now - (lastHeartbeat + interval) ≤ 0
  · have hmax : max 0 (now - (lastHeartbeat + interval)) ≤ 0 := max_le le_rfl hdue
    have hearly : seconds (now - (lastHeartbeat + interval)) ≤ 0 := by
      rw [show (0 : WithTop ℚ) = seconds 0 from by simp [seconds], seconds_le_iff]
      exact hdue
    rw [if_pos hmax]
    refine iff_of_false (by decide) fun hle => ?_
    exact absurd (hgrace.trans (hle.trans hearly)) (hpos.trans_le hsecond).not_ge
  · rw [max_eq_right (by omega), if_neg hdue]
    constructor
    · intro hfour
      repeat' split at hfour
      all_goals first
        | exact le_of_not_gt (by assumption)
        | cases hfour
    · intro hle
      rw [if_neg (hsecond.trans (hgrace.trans hle)).not_gt, if_neg (hgrace.trans hle).not_gt,
        if_neg hle.not_gt]

/-! ## What a pass does -/

/-- Nothing outside is in the way of the pass. -/
structure Surroundings.Ready (env : Surroundings) : Prop where
  networkVerified : ∀ c, env.networkVerified c = true
  isLive : ∀ c, env.isLive c = true
  executorReady : env.executorReady = true
  send : env.send = .ok

/-- The pass tells the owner that the distribution has begun, unless an earlier one has. -/
def Report.Announces (row : Row) (r : Report) : Prop :=
  row.lastStage = 4 ∨ ∃ text msg, stageMessage text (.stage 4) = some msg ∧
    .push row.deviceToken msg ∈ r.effects

/-- The pass keeps to the deadline. -/
structure Report.OnTime (row : Row) (now deadline : Int) (r : Report) : Prop where
  executes : .runExecutor ∈ r.effects ∧ r.Announces row ↔ deadline ≤ now
  reminds : ∀ n, r.stage = some (.stage n) → 1 ≤ n → n ≤ 3 → now < deadline

/-- The executor is driven at stage 4 and at no other. -/
theorem escalate_runExecutor {row : Row} {now : Int} {env : Surroundings} (hready : env.Ready)
    (escalation : Escalation) :
    .runExecutor ∈ (escalate row now env escalation).effects ↔ escalation.stage = 4 := by
  have hdriven : Effect.runExecutor ∈ (if escalation.stage = 4 ∧ env.executorReady = true
      then [Effect.runExecutor] else []) ↔ escalation.stage = 4 := by
    simp [hready.executorReady]
  unfold escalate
  dsimp only
  split
  next hzero => split <;> simp [hzero]
  · split
    · exact hdriven
    · split
      · exact hdriven
      · rw [hready.isLive, if_neg (by simp), hready.networkVerified, if_neg (by simp), hready.send]
        simpa using hdriven

theorem escalate_announces {row : Row} {now : Int} {env : Surroundings} (hready : env.Ready)
    {escalation : Escalation} (hfour : escalation.stage = 4) :
    (escalate row now env escalation).Announces row := by
  by_cases hlast : row.lastStage = 4
  · exact .inl hlast
  · refine .inr ⟨formatDuration escalation.secondsToExecution, _, rfl, ?_⟩
    unfold escalate
    simp only [hfour]
    rw [if_neg (by decide), if_neg (by simp [hlast])]
    simp [hready.isLive, hready.networkVerified, hready.send, stageMessage]

theorem escalate_stage {row : Row} {now : Int} {env : Surroundings} {escalation : Escalation}
    {n : Nat} (h : (escalate row now env escalation).stage = some (.stage n)) :
    escalation.stage = n := by
  unfold escalate at h
  dsimp only at h
  repeat' split at h
  all_goals first
    | exact Notice.stage.inj (Option.some.inj h)
    | cases h

/-! ## The deadline -/

/-- The durations have passed once `overdue` seconds have, as the grace period has. -/
def Stages.Agree (num : Arithmetic) (stages : Stages) (grace overdue : Int) : Prop :=
  stages.grace num ≤ seconds overdue ↔ grace ≤ overdue

/-- To agree at every time, the durations add up to the grace period, in whole seconds. -/
theorem Stages.agree_always {grace : Int} :
    (∀ overdue, stages.Agree num grace overdue) ↔
      seconds (grace - 1) < stages.grace num ∧ stages.grace num ≤ seconds grace := by
  constructor
  · intro h
    refine ⟨lt_of_not_ge fun hle => ?_, (h grace).mpr le_rfl⟩
    have := (h (grace - 1)).mp hle
    omega
  · rintro ⟨hlt, hle⟩ overdue
    refine ⟨fun hpassed => ?_, fun hgrace => hle.trans (seconds_le_iff.mpr hgrace)⟩
    have hsum : ¬ overdue ≤ grace - 1 := fun hearly =>
      (hlt.trans_le (hpassed.trans (seconds_le_iff.mpr hearly))).false
    omega

section Pass

variable {row : Row} {env : Surroundings} {s : World} {key : Pubkey} {vault : VaultConfig}
  {heartbeat : HeartbeatRecord}

/-- The pass over an active vault whose heartbeat can be read. -/
theorem processRegistration_active (hready : env.Ready)
    (hvault : s.vaultConfigs key = some vault)
    (hheartbeat : s.heartbeatRecords (.heartbeat key) = some heartbeat)
    (hpinned : heartbeat.vault = key) (hactive : vault.active = true)
    (hexecuted : vault.executed = false) (now : Int) :
    processRegistration num row now env (some (readVaultState s key)) =
      escalate row now env
        (computeStage num heartbeat.lastHeartbeat vault.heartbeatInterval row.stages now) := by
  simp [processRegistration, readVaultState, hready.networkVerified, hready.isLive, hvault,
    hheartbeat, hpinned, hactive, hexecuted]

/-- The pass keeps to the deadline exactly when the registered durations agree with the
    grace period at its time. -/
theorem onTime_iff_agree (num : Arithmetic) (hready : env.Ready) (hpositive : row.stages.Positive)
    (hvault : s.vaultConfigs key = some vault)
    (hheartbeat : s.heartbeatRecords (.heartbeat key) = some heartbeat)
    (hpinned : heartbeat.vault = key) (hactive : vault.active = true)
    (hexecuted : vault.executed = false) (now : Int) :
    (processRegistration num row now env (some (readVaultState s key))).OnTime row now
        (vault.deadlineAt heartbeat) ↔
      row.stages.Agree num vault.gracePeriod
        (now - (heartbeat.lastHeartbeat + vault.heartbeatInterval)) := by
  rw [processRegistration_active hready hvault hheartbeat hpinned hactive hexecuted]
  have hfour := computeStage_eq_four num hpositive heartbeat.lastHeartbeat
    vault.heartbeatInterval now
  generalize computeStage num heartbeat.lastHeartbeat vault.heartbeatInterval row.stages now =
    escalation at hfour ⊢
  have hdeadline : vault.deadlineAt heartbeat ≤ now ↔
      vault.gracePeriod ≤ now - (heartbeat.lastHeartbeat + vault.heartbeatInterval) := by
    unfold VaultConfig.deadlineAt
    omega
  have hexecutes : .runExecutor ∈ (escalate row now env escalation).effects ∧
      (escalate row now env escalation).Announces row ↔ escalation.stage = 4 := by
    rw [escalate_runExecutor hready]
    exact ⟨fun h => h.1, fun h => ⟨h, escalate_announces hready h⟩⟩
  unfold Stages.Agree
  rw [← hfour, ← hdeadline]
  constructor
  · intro h
    exact hexecutes.symm.trans h.executes
  · intro h
    refine ⟨hexecutes.trans h, fun n hn _ hthree => ?_⟩
    have hstage := escalate_stage hn
    have hnot : ¬ escalation.stage = 4 := by omega
    have := mt h.mpr hnot
    omega

end Pass

theorem stage_four_on_time (host : Host) (num : Arithmetic) {store : Store}
    (hstore : store.Accepted host) {row : Row} (hrow : row ∈ store.rows) {env : Surroundings}
    (hready : env.Ready) {s : World} {key : Pubkey} {vault : VaultConfig}
    {heartbeat : HeartbeatRecord} (hvault : s.vaultConfigs key = some vault)
    (hheartbeat : s.heartbeatRecords (.heartbeat key) = some heartbeat)
    (hpinned : heartbeat.vault = key) (hactive : vault.active = true)
    (hexecuted : vault.executed = false) :
    (∀ now, (processRegistration num row now env (some (readVaultState s key))).OnTime row now
        (vault.deadlineAt heartbeat) ↔
      row.stages.Agree num vault.gracePeriod
        (now - (heartbeat.lastHeartbeat + vault.heartbeatInterval))) ∧
    ((∀ now, (processRegistration num row now env (some (readVaultState s key))).OnTime row now
        (vault.deadlineAt heartbeat)) ↔
      seconds (vault.gracePeriod - 1) < row.stages.grace num ∧
        row.stages.grace num ≤ seconds vault.gracePeriod) := by
  have hpositive : row.stages.Positive :=
    let ⟨h1, h2, h3⟩ := hstore.stagesPositive row hrow
    ⟨h1, h2, h3⟩
  have hpass := onTime_iff_agree num hready hpositive hvault hheartbeat hpinned hactive
    hexecuted
  refine ⟨hpass, ?_⟩
  rw [← Stages.agree_always]
  constructor
  · intro h overdue
    have hnow := (hpass (overdue + (heartbeat.lastHeartbeat + vault.heartbeatInterval))).mp (h _)
    rwa [add_sub_cancel_right] at hnow
  · exact fun h now => (hpass now).mpr (h _)

/-! ## A registration that disagrees

Its three stages take a second each, and its vault grants a week of grace. -/

namespace Sample

/-- A runtime that adds without rounding. -/
def exactArithmetic : Arithmetic where
  add a b := a + b
  le_add _ _ hb := le_add_of_nonneg_right hb.le

def registeredStore : Store :=
  ((Server.start emptyStore).run sampleHost dualConfig
    [register 50, .resume 2 .owned 60 false]).store

def registeredRow : Row where
  vault := "vault"
  owner := "owner"
  deviceToken := "0123456789"
  stage1 := 1
  stage2 := 1
  stage3 := 1
  lastStage := 0
  lastNotifiedAt := 0
  createdAt := 60
  updatedAt := 60
  authVersion := 1
  registrationRevision := 0
  deviceTokenHash := none
  signedAt := none
  migrationStatus := .legacy
  lastAuthOp := some "register"

def watchedKey : Pubkey := .vault (.key 1)

def watchedVault : VaultConfig where
  owner := .key 1
  agentPubkey := .key 2
  heartbeatInterval := 86400
  gracePeriod := 604800
  beneficiaries := [⟨.key 3, 10000⟩]
  executed := false
  active := true
  createdAt := 0
  updatedAt := 0
  isMutable := true
  hasAssetPlan := false
  openTokenDists := 0
  keeperBounty := 0

def watchedHeartbeat : HeartbeatRecord := ⟨watchedKey, 0, .activeTap, 0⟩

def watchedWorld : World where
  now := 0
  lamports _ := 0
  vaultConfigs := Function.update (fun _ => none) watchedKey (some watchedVault)
  heartbeatRecords := Function.update (fun _ => none) (.heartbeat watchedKey) (some watchedHeartbeat)
  assetPlans _ := none
  executionLogs _ := none
  tokenDists _ := none
  tokenAccounts _ := none
  tokenAmounts _ := 0
  withheldFees _ := 0
  mints _ := none
  moved := []

def ready : Surroundings where
  networkVerified _ := true
  isLive _ := true
  executorReady := true
  fcmWaived := false
  programOk := true
  send := .ok

theorem registered_accepted : registeredStore.Accepted sampleHost :=
  .run dualConfig _ .empty

theorem registeredRow_mem : registeredRow ∈ registeredStore.rows := by decide

theorem ready_ready : ready.Ready := ⟨fun _ => rfl, fun _ => rfl, rfl, rfl⟩

theorem registered_grace : registeredRow.stages.grace exactArithmetic = seconds 3 := by
  have hsum : (1 + 1 + 1 : ℚ) = 3 := by norm_num
  simp only [Stages.grace, Stages.second, exactArithmetic, Row.stages, registeredRow, seconds]
  rw [← WithTop.coe_add, ← WithTop.coe_add, hsum]
  rfl

theorem watched_config : watchedWorld.vaultConfigs watchedKey = some watchedVault := by
  simp [watchedWorld]

theorem watched_heartbeat :
    watchedWorld.heartbeatRecords (.heartbeat watchedKey) = some watchedHeartbeat := by
  simp [watchedWorld]

end Sample

theorem stage_four_on_time_sample :
    (processRegistration Sample.exactArithmetic Sample.registeredRow 700000 Sample.ready
      (some (readVaultState Sample.watchedWorld Sample.watchedKey))).OnTime Sample.registeredRow 700000
        (Sample.watchedVault.deadlineAt Sample.watchedHeartbeat) := by
  have h := stage_four_on_time Sample.sampleHost Sample.exactArithmetic Sample.registered_accepted
    Sample.registeredRow_mem Sample.ready_ready Sample.watched_config Sample.watched_heartbeat rfl rfl rfl
  refine (h.1 700000).mpr ?_
  rw [Stages.Agree, Sample.registered_grace, seconds_le_iff]
  decide

theorem stage_four_on_time_fails :
    ¬ ∀ (host : Host) (num : Arithmetic) (store : Store) (row : Row) (env : Surroundings) (s : World)
      (key : Pubkey) (vault : VaultConfig) (heartbeat : HeartbeatRecord) (now : Int),
      store.Accepted host → row ∈ store.rows → env.Ready → s.vaultConfigs key = some vault →
      s.heartbeatRecords (.heartbeat key) = some heartbeat → heartbeat.vault = key →
      vault.active = true → vault.executed = false →
      (processRegistration num row now env (some (readVaultState s key))).OnTime row now
        (vault.deadlineAt heartbeat) := by
  intro h
  -- Ten seconds after the heartbeat was due, a week before the deadline.
  have hpass := h Sample.sampleHost Sample.exactArithmetic Sample.registeredStore Sample.registeredRow
    Sample.ready Sample.watchedWorld Sample.watchedKey Sample.watchedVault Sample.watchedHeartbeat 86410
    Sample.registered_accepted Sample.registeredRow_mem Sample.ready_ready Sample.watched_config
    Sample.watched_heartbeat rfl rfl rfl
  rw [onTime_iff_agree Sample.exactArithmetic Sample.ready_ready ⟨by decide, by decide, by decide⟩
    Sample.watched_config Sample.watched_heartbeat rfl rfl rfl, Stages.Agree,
    Sample.registered_grace, seconds_le_iff] at hpass
  exact absurd hpass (by decide)

end DeadMansVault.Notify
