-- SUMMARY: Which passes of the server and of the keeper execute the vault, where nothing fails.
import DeadMansVault.Automation.Finalize

/-!
# Passes

Against a node on which nothing fails, a pass over a vault ends with the vault executed if and
only if the execution has begun, every selected mint could be opened and the masks are full in
the end. A token account that someone else has made for the vault is enough to select a
mint, so that the first of the two is not in the hands of those who pay.
-/

namespace DeadMansVault.Crank

open Script World

variable {c : Cluster} {node : Node} {job : Job World} {o payer : Pubkey} {v : VaultConfig}
  {as : List AssetAssignment} {s : World}

/-- What a pass from `s` comes to, from the openings on. -/
def Outcome (c : Cluster) (node : Node) (payer o : Pubkey) (v : VaultConfig) (s : World)
    (r : Run World) : Prop :=
  (Unhindered c node payer o s → Settled o v r) ∧ (¬ Unhindered c node payer o s → HeldBack c o r)

theorem Outcome.executed_iff {r : Run World} (h : Outcome c node payer o v s r) :
    Executed o r.net ↔ Unhindered c node payer o s ∧ MasksFull o v r.net := by
  by_cases hfree : Unhindered c node payer o s
  · exact (h.1 hfree).trans (and_iff_right hfree).symm
  · exact iff_of_false (h.2 hfree).unexecuted fun hboth => hfree hboth.1

theorem stable_outcome : Stable c (Trailing c o) (Outcome c node payer o v s) := by
  have hheld : Stable c (Trailing c o) (HeldBack c o) :=
    stable_heldBack.mono fun _ htrailing => htrailing.unfinal
  exact {
    entry := fun r entry hentry hr =>
      ⟨fun hfree => stable_settled.entry r entry hentry (hr.1 hfree),
        fun hnot => hheld.entry r entry hentry (hr.2 hnot)⟩
    lands := fun r submission s' hsub hlands hr =>
      ⟨fun hfree => stable_settled.lands r submission s' hsub hlands (hr.1 hfree),
        fun hnot => hheld.lands r submission s' hsub hlands (hr.2 hnot)⟩ }

/-- The steps up to the token shares, where the execution is under way after the begin. -/
theorem Job.OnNode.distribute (hjob : job.OnNode c node) (hvault : job.vault = .vault o)
    (hsign : job.payer.canSign = true) {expire : Routine World PUnit}
    (hexpire : ∀ r, expire r = .ok ⟨⟩ r) {r₀ : Run World} (h : Pending c o v as r₀.net)
    (hstart : r₀.stuckMints = [])
    (hbegin : job.beginExecution v.hasAssetPlan ⟨s, []⟩ = .ok ⟨⟩ r₀) :
    Meets (fun r => r = ⟨s, []⟩) (job.distribute expire v)
      (fun _ => Outcome c node job.payer o v r₀.net)
      (fun _ => Outcome c node job.payer o v r₀.net) := by
  obtain ⟨r, hpending, hplans, hstuck, -, -, hrun⟩ :=
    hjob.run_openings hvault hsign hexpire h hstart hbegin
  rintro _ rfl
  rw [hrun]
  have houtcome : Meets (fun r' => r' = r)
      (job.settle v (r₀.net.assetPlans (.assetPlan (.vault o))) (node.selected c o r₀.net))
      (fun _ => Outcome c node job.payer o v r₀.net)
      (fun _ => Outcome c node job.payer o v r₀.net) := by
    by_cases hfree : Unhindered c node job.payer o r₀.net
    · refine (hjob.settle_settled hvault hsign _ hpending (congrFun hplans _)
        (hstuck.mpr hfree)).mono (fun _ h => h) (fun _ r' h => ?_) fun _ r' h => ?_
      · exact ⟨fun _ => h, fun hnot => absurd hfree hnot⟩
      · exact ⟨fun _ => h, fun hnot => absurd hfree hnot⟩
    · have hheld : HeldBack c o r :=
        ⟨fun hnone => hfree (hstuck.mp hnone), hpending.reachable, hpending.not_executed⟩
      refine (hjob.settle_heldBack v _ _).mono (fun r' heq => heq ▸ hheld)
        (fun _ r' h => ?_) fun _ r' h => ?_
      · exact ⟨fun hyes => absurd hyes hfree, fun _ => h⟩
      · exact ⟨fun hyes => absurd hyes hfree, fun _ => h⟩
  exact houtcome r rfl

/-- Where it cannot begin, the pass leaves everything as it is. -/
theorem Job.OnNode.pass_refused (hjob : job.OnNode c node) (hvault : job.vault = .vault o)
    (hlog : (afterBegin c job.payer o v s).executionLogs (.execution (.vault o)) = none)
    {expire : Routine World PUnit} {α : Type}
    (rest : List (Pubkey × ProgramId) → Routine World α) :
    (final ((job.distribute expire v >>= rest) ⟨s, []⟩)).net = s := by
  rcases hjob.beginExecution hvault s with ⟨hsome, -⟩ | ⟨-, e, r, hrun, hnet⟩
  · rw [hlog] at hsome
    cases hsome
  · have hsteps : job.distribute expire v ⟨s, []⟩ = .error e r := run_bind_error hrun
    rw [run_bind_error hsteps]
    exact hnet

/-! ## What follows the steps -/

/-- A routine that changes nothing of what the finalize has come to. -/
abbrev Trails (c : Cluster) (o : Pubkey) {α : Type} (x : Routine World α) : Prop :=
  Preserves (Stable c (Trailing c o)) x

/-- The execution is under way once the pass has tried to begin it, and every mint that the pass
    selects then can be opened. -/
structure Crankable (c : Cluster) (node : Node) (payer o : Pubkey) (v : VaultConfig) (s : World) :
    Prop where
  begun : ((afterBegin c payer o v s).executionLogs (.execution (.vault o))).isSome = true
  unhindered : Unhindered c node payer o (afterBegin c payer o v s)

theorem not_executed (hv : s.vaultConfigs (.vault o) = some v) (hopen : v.executed = false) :
    ¬ Executed o s := by
  rintro ⟨u, hu, hexecuted⟩
  obtain rfl := Option.some.inj (hv.symm.trans hu)
  exact Bool.false_ne_true (hopen.symm.trans hexecuted)

/-- Whatever follows the steps, the finalize decides what the pass comes to. -/
theorem Job.OnNode.pass_executes_iff (hjob : job.OnNode c node) (hvault : job.vault = .vault o)
    (hsign : job.payer.canSign = true) {expire : Routine World PUnit}
    (hexpire : ∀ r, expire r = .ok ⟨⟩ r) (hs : Reachable c s)
    (hv : s.vaultConfigs (.vault o) = some v) (hopen : v.executed = false) {α : Type}
    {rest : List (Pubkey × ProgramId) → Routine World α} (hrest : ∀ mints, Trails c o (rest mints))
    {r : Run World} (hr : final ((job.distribute expire v >>= rest) ⟨s, []⟩) = r) :
    Executed o r.net ↔ Crankable c node job.payer o v s ∧ MasksFull o v r.net := by
  rcases hjob.beginExecution (v := v) hvault s with ⟨hlog, r₀, hbegin, hstart, hnet⟩ | ⟨hlog, -⟩
  · have h : Pending c o v (s.estate c o).assignments r₀.net :=
      hnet ▸ pending_afterBegin hs hv hopen hlog
    have hpass := (hjob.distribute hvault hsign hexpire h hstart hbegin).bind fun mints =>
      (hrest mints).meets _ stable_outcome
    rw [← hr, (hpass.at_end rfl).executed_iff, hnet]
    exact and_congr_left fun _ => ⟨fun hfree => ⟨hlog, hfree⟩, fun h => h.unhindered⟩
  · rw [← hr, hjob.pass_refused hvault hlog rest]
    refine iff_of_false (not_executed hv hopen) fun hboth => ?_
    have hbegun := hboth.1.begun
    rw [hlog] at hbegun
    cases hbegun

theorem preserves_config (key : Pubkey) {S : Submission → Prop} :
    Preserves (Stable c S) (fetch ((node.client c).vaultConfig key)) := by
  refine (preserves_read fun _ => rfl).bind fun config => ?_
  cases config with
  | none => exact .throw _
  | some config => exact .pure config

/-- The closings. -/
theorem Job.OnNode.closings_trail (hjob : job.OnNode c node) (executed : Bool) (owner : Pubkey)
    (beneficiaries : List Beneficiary) (mints : List (Pubkey × ProgramId)) :
    Trails c o (job.closeTokenDists executed owner beneficiaries mints) :=
  hjob.closed.closeTokenDists beneficiaries (fun _ _ _ _ _ => trailing_createAta ..)
    (fun key => hjob.preserves_tokenDist key) (fun _ _ _ _ => trailing_closeTokenDist ..)
    executed owner mints

/-! ## The keeper -/

/-- What the keeper does after the steps. -/
def keeperRest (job : Job World) (cfg : VaultConfig) (mints : List (Pubkey × ProgramId)) :
    Routine World (Bool × List (Option Pubkey × StuckStep)) := do
  let freshCfg ← fetch (job.client.vaultConfig job.vault)
  job.closeTokenDists freshCfg.executed freshCfg.owner cfg.beneficiaries mints
  return (freshCfg.executed, (← get).skipped)

theorem keeperRest_trails (hjob : job.OnNode c node) (cfg : VaultConfig)
    (mints : List (Pubkey × ProgramId)) : Trails c o (keeperRest job cfg mints) := by
  refine (hjob.client ▸ preserves_config _).bind fun fresh => ?_
  exact (hjob.closings_trail _ _ _ _).bind fun _ => Preserves.get.bind fun _ => .pure _

theorem crankVault_run (payer vault : Pubkey) (cfg : VaultConfig) (r : Run World) :
    crankVault (node.client c) payer vault cfg permitted r =
      ((keeperJob (node.client c) payer vault permitted).distribute (call (node.client c).deadline)
          cfg >>= keeperRest (keeperJob (node.client c) payer vault permitted) cfg) r :=
  rfl

theorem crankVault_executes_iff (hs : Reachable c s) (hv : s.vaultConfigs (.vault o) = some v)
    (hopen : v.executed = false) (hsign : payer.canSign = true) {r : Run World}
    (hr : final (crankVault (node.client c) payer (.vault o) v permitted ⟨s, []⟩) = r) :
    Executed o r.net ↔ Crankable c node payer o v s ∧ MasksFull o v r.net := by
  have hjob := keeperJob_onNode c node payer (.vault o)
  rw [crankVault_run] at hr
  exact hjob.pass_executes_iff rfl hsign (fun _ => rfl) hs hv hopen (keeperRest_trails hjob v) hr

/-! ## The server -/

/-- What the server does after the steps. -/
def executorRest (job : Job World) (cfg : VaultConfig) (mints : List (Pubkey × ProgramId)) :
    Routine World Action := do
  let finalizedCfg ← fetch (job.client.vaultConfig job.vault)
  job.closeTokenDists finalizedCfg.executed cfg.owner cfg.beneficiaries mints
  let finalCfg ← fetch (job.client.vaultConfig job.vault)
  let skipped := (← get).skipped
  return if finalCfg.executed then .executed skipped else .cranked skipped

theorem executorRest_trails (hjob : job.OnNode c node) (cfg : VaultConfig)
    (mints : List (Pubkey × ProgramId)) : Trails c o (executorRest job cfg mints) := by
  refine (hjob.client ▸ preserves_config _).bind fun finalized => ?_
  refine (hjob.closings_trail _ _ _ _).bind fun _ => ?_
  exact (hjob.client ▸ preserves_config _).bind fun last => Preserves.get.bind fun _ => .pure _

theorem executeDue_run (cfg : VaultConfig) (r : Run World) :
    executeDue job cfg r = (job.distribute (pure ⟨⟩) cfg >>= executorRest job cfg) r :=
  rfl

/-- The clock of the server has passed the deadline, and the server can read the heartbeat. -/
def Timely (node : Node) (v : VaultConfig) (hb : HeartbeatRecord) (s : World) : Prop :=
  hb.lastHeartbeat.natAbs < 2 ^ 53 ∧ v.deadlineAt hb ≤ node.now s

theorem toNumber_ok {σ : Type} {n : Int} (h : n.natAbs < 2 ^ 53) (r : Run σ) :
    toNumber n r = .ok n r := by
  unfold toNumber
  rw [if_pos h]
  rfl

/-- From the checks on, the server either runs the steps or leaves everything as it is. -/
theorem runExecutorInner_run (node : Node) (payer : Pubkey) (hs : Reachable c s)
    (hv : s.vaultConfigs (.vault o) = some v) (hopen : v.executed = false) {hb : HeartbeatRecord}
    (hh : s.heartbeatRecords (.heartbeat (.vault o)) = some hb) :
    (Timely node v hb s → runExecutorInner (node.client c) payer (.vault o) permitted ⟨s, []⟩ =
      executeDue (executorJob (node.client c) payer (.vault o) permitted) v ⟨s, []⟩) ∧
    (¬ Timely node v hb s →
      final (runExecutorInner (node.client c) payer (.vault o) permitted ⟨s, []⟩) = ⟨s, []⟩) := by
  obtain ⟨haccepted, -⟩ := (hs.lawful o).accepted v hv
  have hinterval : v.heartbeatInterval.natAbs < 2 ^ 53 := by
    have h := haccepted.intervalRange
    simp only [minHeartbeatInterval, maxHeartbeatInterval] at h
    omega
  have hgrace : v.gracePeriod.natAbs < 2 ^ 53 := by
    have h := haccepted.graceRange
    simp only [minGracePeriod, maxGracePeriod] at h
    omega
  let rest : Int → Routine World Action := fun lastHeartbeat => do
    let heartbeatInterval ← toNumber v.heartbeatInterval
    let gracePeriod ← toNumber v.gracePeriod
    let now ← call fun net => let (now, net) := (node.client c).now net; (.ok now, net)
    if now < lastHeartbeat + heartbeatInterval + gracePeriod then pure .notDue
    else executeDue (executorJob (node.client c) payer (.vault o) permitted) v
  have hchecks : runExecutorInner (node.client c) payer (.vault o) permitted ⟨s, []⟩ =
      (toNumber hb.lastHeartbeat >>= rest) ⟨s, []⟩ := by
    have hfee : call (node.client c).priorityFee ⟨s, []⟩ = .ok ⟨⟩ ⟨s, []⟩ := rfl
    have hconfig : call ((node.client c).vaultConfig (.vault o)) ⟨s, []⟩ = .ok (some v) ⟨s, []⟩ :=
      call_read (by rw [← hv]; rfl)
    refine (run_bind_ok hfee).trans ((run_bind_ok hconfig).trans ?_)
    dsimp only
    rw [if_neg (by rw [hopen]; exact Bool.false_ne_true)]
    exact run_bind_ok (fetch_read (by rw [← hh]; rfl))
  rw [hchecks]
  by_cases hread : hb.lastHeartbeat.natAbs < 2 ^ 53
  · have hrest : (toNumber hb.lastHeartbeat >>= rest) ⟨s, []⟩ =
        (if node.now s < v.deadlineAt hb then pure .notDue
        else executeDue (executorJob (node.client c) payer (.vault o) permitted) v) ⟨s, []⟩ :=
      (run_bind_ok (toNumber_ok hread _)).trans ((run_bind_ok (toNumber_ok hinterval _)).trans
        ((run_bind_ok (toNumber_ok hgrace _)).trans rfl))
    rw [hrest]
    refine ⟨fun htimely => ?_, fun hnot => ?_⟩
    · rw [if_neg (Int.not_lt.mpr htimely.2)]
    · rw [if_pos (Int.not_le.mp fun hdue => hnot ⟨hread, hdue⟩)]
      rfl
  · have hthrown : toNumber (σ := World) hb.lastHeartbeat =
        throw (error "Number can only safely store up to 53 bits") := if_neg hread
    refine ⟨fun htimely => absurd htimely.1 hread, fun _ => ?_⟩
    rw [hthrown]
    rfl

theorem runExecutorInner_executes_iff (hs : Reachable c s)
    (hv : s.vaultConfigs (.vault o) = some v) (hopen : v.executed = false)
    {hb : HeartbeatRecord} (hh : s.heartbeatRecords (.heartbeat (.vault o)) = some hb)
    (hsign : payer.canSign = true) {r : Run World}
    (hr : final (runExecutorInner (node.client c) payer (.vault o) permitted ⟨s, []⟩) = r) :
    Executed o r.net ↔
      Timely node v hb s ∧ Crankable c node payer o v s ∧ MasksFull o v r.net := by
  have hjob := executorJob_onNode c node payer (.vault o)
  obtain ⟨hrun, hstay⟩ := runExecutorInner_run node payer hs hv hopen hh
  by_cases htimely : Timely node v hb s
  · rw [hrun htimely, executeDue_run] at hr
    rw [hjob.pass_executes_iff rfl hsign (fun _ => rfl) hs hv hopen (executorRest_trails hjob v) hr]
    exact (and_iff_right htimely).symm
  · rw [hstay htimely] at hr
    rw [← hr]
    exact iff_of_false (not_executed hv hopen) fun h => htimely h.1

end DeadMansVault.Crank
