-- SUMMARY: Whether a third party's deposits can keep a pass from finalizing an execution that is all paid.
import DeadMansVault.Automation.Deposits
import DeadMansVault.Guarantees.Freeze
import DeadMansVault.Guarantees.Griefing

/-!
# Finalizing

Once the masks are full, what is left to the pass is to open the distributions of the mints that
it takes, and to finalize. It does not finalize where it could not open one of them, and
whether it can is in the hands of those who make token accounts over to the vault.
-/

namespace DeadMansVault

open Crank Script World

variable {c : Cluster} {node : Node} {job : Job World} {o payer : Pubkey} {v : VaultConfig}
  {s w w' : World}

/-! ## Full masks stay full -/

/-- While the vault proceeds, no bit is cleared. -/
theorem Crank.MasksFull.proceeds (h : MasksFull o v w) (hv : w.vaultConfigs (.vault o) = some v)
    (hw' : Reachable c w') (hproceeds : (w.estate c o).Proceeds (w'.estate c o)) :
    MasksFull o v w' := by
  obtain ⟨⟨l, hl, hsol⟩, hplan⟩ := h
  have hlaw := hw'.lawful o
  obtain ⟨v', hv', heq, -⟩ := hproceeds.config v hv
  have hbenefs : v'.beneficiaries = v.beneficiaries := by rw [heq]
  have hcount : v.beneficiaries.length ≤ 32 :=
    hbenefs ▸ (hlaw.accepted v' hv').1.count.2.trans (show maxBeneficiaries ≤ 32 by decide)
  constructor
  · obtain ⟨l', hl', -, -, -, hbits⟩ := hproceeds.log l hl
    refine ⟨l', hl', (Bitmask.eq_full_iff hcount ?_).mpr fun i hi => ?_⟩
    · exact hbenefs ▸ hlaw.solMask v' l' hv' hl'
    · exact hbits i (Bitmask.test_of_eq_full hcount hsol hi)
  · intro p' hp'
    have hassign : ((w.assetPlans (.assetPlan (.vault o))).map (·.assignments)) =
        some p'.assignments := by
      have hsame := hproceeds.plan
      simp only [World.estate, hp', Option.map_some] at hsame
      exact hsame.symm
    obtain ⟨p, hp, hlen⟩ := Option.map_eq_some_iff.mp hassign
    have hle : p'.assignments.length ≤ 64 := (hlaw.plan p' hp').2
    refine (Bitmask.eq_full_iff hle (hlaw.planMask p' hp').1).mpr fun j hj => ?_
    have hbit := hproceeds.planBits j
    simp only [Estate.planBits, World.estate, hp, hp', Option.elim_some] at hbit
    exact hbit (Bitmask.test_of_eq_full (hlen ▸ hle) (hplan p hp) (hlen ▸ hj))

/-- What a crank submits does not close the vault. -/
theorem Crank.Submission.Cranks.not_close {vault : Pubkey} {beneficiaries : List Beneficiary}
    {submission : Submission} {i : Instruction} (h : submission.Cranks vault beneficiaries)
    (hi : submission.instruction = some i) : i.kind ≠ .close := by
  have hopen : closesVault i = false := by
    cases submission with
    | createAta => cases hi
    | invoke i' =>
        obtain rfl := Option.some.inj hi
        exact h.2
    | invokeWith programId harvest instruction =>
        cases programId with
        | token program =>
            obtain rfl := Option.some.inj hi
            exact (h program).2
        | other n => cases hi
  cases i with
  | closeExecutedVault | closeExecutedVaultByOwner => cases hopen
  | _ => nofun

/-- Under the transactions of a crank a due vault proceeds. -/
theorem stable_proceeds (hdue : (s.estate c o).Due) {beneficiaries : List Beneficiary} :
    Stable c (Submission.Cranks (.vault o) beneficiaries) fun r =>
      Reachable c r.net ∧ (s.estate c o).Proceeds (r.net.estate c o) where
  entry _ _ _ hr := hr
  lands r submission s' hcranks hlands hr := by
    obtain ⟨hreach, hproceeds⟩ := hr
    refine ⟨Submission.lands_reachable hreach hlands, hproceeds.trans ?_⟩
    have hdue' := hproceeds.due hdue
    rcases Submission.lands_cases hlands with ⟨i, hi, hexec⟩ | ⟨account, rfl⟩
    · refine due_proceeds hreach hdue' (.cons (.environment
        (harvest_environment hreach.sound.regular _)) (.cons (.executed hexec) (.nil _))) ?_
      intro e he
      rcases List.mem_cons.mp he with rfl | he
      · rfl
      · obtain rfl := List.mem_singleton.mp he
        simp [Event.closes, hcranks.not_close hi]
    · refine due_proceeds hreach hdue' (.cons (.environment
        (createAta_environment hreach.sound.regular account)) (.nil _)) ?_
      intro e he
      obtain rfl := List.mem_singleton.mp he
      rfl

/-- Over a pass the masks stay full. -/
theorem Crank.Job.OnNode.pass_keeps_full (hjob : job.OnNode c node) (hvault : job.vault = .vault o)
    {expire : Routine World PUnit} (hexpire : ∀ r, expire r = .ok ⟨⟩ r) (hs : Reachable c s)
    (hv : s.vaultConfigs (.vault o) = some v)
    (hlog : (s.executionLogs (.execution (.vault o))).isSome = true) (hfull : MasksFull o v s)
    {α : Type} {rest : List (Pubkey × ProgramId) → Routine World α}
    (hrest : ∀ mints, Trails c o (rest mints)) :
    MasksFull o v (final ((job.distribute expire v >>= rest) ⟨s, []⟩)).net := by
  have hsame : afterBegin c job.payer o v s = s := afterBegin_of_log hlog
  rcases hjob.beginExecution (v := v) hvault s with ⟨-, r₀, hbegin, -, hnet⟩ | ⟨hnone, -⟩
  · obtain ⟨l, hl⟩ := Option.isSome_iff_exists.mp hlog
    have hdue : (s.estate c o).Due := (hs.lawful o).due hl
    have hsteps : Preserves (Stable c (Submission.Cranks (.vault o) v.beneficiaries))
        (job.distribution expire v) :=
      hjob.closed.distribution (fun key => hjob.preserves_tokenDist key)
        (fun submission hcranks => hvault ▸ hcranks)
        ⟨fun P _ r hr => by rw [hexpire r]; exact hr⟩
    have hkept := ((hsteps.meets _ (stable_proceeds hdue)).mono (fun _ hr => hr)
      (fun _ r hr => hfull.proceeds hv hr.1 hr.2)
      (fun _ r hr => hfull.proceeds hv hr.1 hr.2)).bind fun mints =>
        (hrest mints).meets _ stable_masksFull
    have hrun : (job.distribute expire v >>= rest) ⟨s, []⟩ =
        (job.distribution expire v >>= rest) r₀ :=
      run_bind_congr (run_bind_ok hbegin) rest
    rw [hrun]
    refine hkept.at_end ⟨?_, ?_⟩
    · rw [hnet, hsame]
      exact hs
    · rw [hnet, hsame]
      exact .refl _
  · rw [hsame] at hnone
    rw [hnone] at hlog
    cases hlog

/-! ## The two cranks -/

theorem crankVault_keeps_full (payer : Pubkey) (hs : Reachable c s)
    (hv : s.vaultConfigs (.vault o) = some v)
    (hlog : (s.executionLogs (.execution (.vault o))).isSome = true) (hfull : MasksFull o v s) :
    MasksFull o v
      (final (crankVault (node.client c) payer (.vault o) v permitted ⟨s, []⟩)).net := by
  have hjob := keeperJob_onNode c node payer (.vault o)
  rw [crankVault_run]
  exact hjob.pass_keeps_full rfl (fun _ => rfl) hs hv hlog hfull (keeperRest_trails hjob v)

theorem runExecutorInner_keeps_full (payer : Pubkey) (hs : Reachable c s)
    (hv : s.vaultConfigs (.vault o) = some v) (hopen : v.executed = false) {hb : HeartbeatRecord}
    (hh : s.heartbeatRecords (.heartbeat (.vault o)) = some hb)
    (hlog : (s.executionLogs (.execution (.vault o))).isSome = true) (hfull : MasksFull o v s) :
    MasksFull o v
      (final (runExecutorInner (node.client c) payer (.vault o) permitted ⟨s, []⟩)).net := by
  have hjob := executorJob_onNode c node payer (.vault o)
  obtain ⟨hrun, hstay⟩ := runExecutorInner_run node payer hs hv hopen hh
  by_cases htimely : Timely node v hb s
  · rw [hrun htimely, executeDue_run]
    exact hjob.pass_keeps_full rfl (fun _ => rfl) hs hv hlog hfull (executorRest_trails hjob v)
  · rw [hstay htimely]
    exact hfull

theorem crankable_iff (hs : Reachable c s)
    (hlog : (s.executionLogs (.execution (.vault o))).isSome = true) :
    Crankable c node payer o v s ↔ Undisturbed c node payer o s := by
  have hsame : afterBegin c payer o v s = s := afterBegin_of_log hlog
  rw [← unhindered_iff hs.sound.regular]
  exact ⟨fun h => hsame ▸ h.unhindered, fun h => ⟨hsame.symm ▸ hlog, hsame.symm ▸ h⟩⟩

/-- **What a pass that has everything paid comes to.** Where the masks are full, or become full,
    each of the two cranks finalizes the execution if and only if the token accounts of the vault
    are not in the way; the server has to see the deadline on its own clock, too. -/
theorem full_masks_finalize_iff (node : Node) (payer : Pubkey) (hs : Reachable c s)
    (hv : s.vaultConfigs (.vault o) = some v) (hopen : v.executed = false)
    (hlog : (s.executionLogs (.execution (.vault o))).isSome = true)
    (hsign : payer.canSign = true) :
    (∀ r, final (crankVault (node.client c) payer (.vault o) v permitted ⟨s, []⟩) = r →
      MasksFull o v s ∨ MasksFull o v r.net →
      (Executed o r.net ↔ Undisturbed c node payer o s)) ∧
    ∀ hb r, s.heartbeatRecords (.heartbeat (.vault o)) = some hb →
      final (runExecutorInner (node.client c) payer (.vault o) permitted ⟨s, []⟩) = r →
      MasksFull o v s ∨ MasksFull o v r.net →
      (Executed o r.net ↔ Timely node v hb s ∧ Undisturbed c node payer o s) := by
  refine ⟨fun r hr hmasks => ?_, fun hb r hh hr hmasks => ?_⟩
  · have hfull : MasksFull o v r.net :=
      hmasks.elim (fun hfull => hr ▸ crankVault_keeps_full payer hs hv hlog hfull) id
    rw [crankVault_executes_iff hs hv hopen hsign hr, crankable_iff hs hlog]
    exact and_iff_left hfull
  · have hfull : MasksFull o v r.net := hmasks.elim
      (fun hfull => hr ▸ runExecutorInner_keeps_full payer hs hv hopen hh hlog hfull) id
    rw [runExecutorInner_executes_iff hs hv hopen hh hsign hr, crankable_iff hs hlog]
    exact and_congr_right fun _ => and_iff_left hfull

/-! ## The sample vault -/

namespace Sample

/-- All that the sample vault owes before its finalize is paid; the keeper still has an account
    of another mint of its own. -/
def paidUp : World :=
  crowdedDue.play cluster (.run (.beginExecution beginExecution) :: payouts)

def paidConfig : VaultConfig := { config with openTokenDists := 1 }

/-- The keeper makes that account over to the vault. -/
def stuffed : World := paidUp.handOver (.key 9) spare owner

/-- The keeper sends some of it to the associated account of the vault. -/
def gifted : World := paidUp.deposit cluster (.key 9) owner silver 3

def silverAta : Pubkey := canonicalAta cluster vault silver

/-- A node that lists that account as well. -/
def giftNode : Node := { openNode with accounts := fun _ owner _ => [ata owner, .key 9, silverAta] }

theorem paidUp_evaluates :
    crowdedDue.plays cluster noCheck (.run (.beginExecution beginExecution) :: payouts) = true ∧
    paidUp.vaultConfigs vault = some paidConfig ∧
    paidUp.heartbeatRecords (.heartbeat vault) = some heartbeat ∧
    (paidUp.executionLogs (.execution vault)).map (·.solPaidMask) = some (fullMaskU32 2) ∧
    (paidUp.assetPlans (.assetPlan vault)).map (fun p => (p.paidMask, p.assignments)) =
      some (fullMaskU64 2, assignments) ∧
    paidUp.tokenAccounts (.key 9) = some spare ∧ 3 ≤ paidUp.tokenAmounts (.key 9) ∧
    paidUp.now = 691_200 := by
  decide +kernel

/-- What a pass finds to open, where the keeper has made its account over, and where it has sent
    some of it. -/
theorem deposits_evaluate :
    silver ∈ openNode.toOpen cluster owner stuffed ∧
    stuffed.tokenAmounts silverAta = 0 ∧
    ¬ Planned (stuffed.assetPlans (.assetPlan vault)) silver ∧
    giftNode.toOpen cluster owner gifted = [silver] ∧ 0 < gifted.tokenAmounts silverAta ∧
    (gifted.mints silver).isSome = true ∧
    giftNode.programOf cluster gifted vault silver = some (.token .token) ∧
    gifted.rentDue cluster (.tokenDist vault silver) TokenDist.space ≤ gifted.lamports keeper := by
  decide +kernel

theorem paidUp_reachable : Reachable cluster paidUp := by
  have hdue : Reachable cluster crowdedDue :=
    Genesis.reachable crowdedDue_evaluates.1.1 crowdedDue_evaluates.1.2
  exact hdue.trace ((hdue.sound.play paidUp_evaluates.1).mono fun _ _ _ hstep => hstep.1)

theorem paidUp_masksFull : MasksFull owner paidConfig paidUp := by
  obtain ⟨-, -, -, hsol, hplan, -⟩ := paidUp_evaluates
  obtain ⟨l, hl, hmask⟩ := Option.map_eq_some_iff.mp hsol
  refine ⟨⟨l, hl, hmask⟩, fun p hp => ?_⟩
  rw [show paidUp.assetPlans (.assetPlan vault) = some p from hp, Option.map_some] at hplan
  obtain ⟨hpaid, hassign⟩ := Prod.mk.inj (Option.some.inj hplan)
  rw [hpaid, hassign]
  rfl

theorem paidUp_log : (paidUp.executionLogs (.execution vault)).isSome = true := by
  rw [← Option.isSome_map (f := (·.solPaidMask)), paidUp_evaluates.2.2.2.1]
  rfl

theorem stuffed_environment : Environment cluster paidUp stuffed :=
  handOver_environment paidUp_reachable.sound.regular paidUp_evaluates.2.2.2.2.2.1
    (fun _ => Pubkey.noConfusion) owner

theorem stuffed_reachable : Reachable cluster stuffed :=
  paidUp_reachable.step (.environment stuffed_environment)

theorem stuffed_config : stuffed.vaultConfigs vault = some paidConfig := paidUp_evaluates.2.1

theorem stuffed_masksFull : MasksFull owner paidConfig stuffed :=
  (masksFull_congr (show stuffed.executionLogs = paidUp.executionLogs from rfl) rfl).mpr
    paidUp_masksFull

theorem stuffed_disturbed : ¬ Undisturbed cluster openNode keeper owner stuffed := by
  obtain ⟨hopen, hempty, hplan, -⟩ := deposits_evaluate
  exact fun h => absurd (h.associated silver hopen hplan) (hempty ▸ lt_irrefl 0)

theorem gifted_reachable : Reachable cluster gifted := by
  have hsource : paidUp.tokenAccounts (.key 9) =
      some ⟨some (cluster.tokenProgram silver), silver, keeper⟩ :=
    paidUp_evaluates.2.2.2.2.2.1
  exact paidUp_reachable.step (.environment (paidUp_reachable.sound.regular.deposit hsource
    (fun _ => Pubkey.noConfusion) paidUp_evaluates.2.2.2.2.2.2.1))

theorem gifted_config : gifted.vaultConfigs vault = some paidConfig := paidUp_evaluates.2.1

theorem gifted_masksFull : MasksFull owner paidConfig gifted :=
  (masksFull_congr (show gifted.executionLogs = paidUp.executionLogs from rfl) rfl).mpr
    paidUp_masksFull

theorem gifted_undisturbed : Undisturbed cluster giftNode keeper owner gifted := by
  obtain ⟨-, -, -, hopen, hheld, hmint, hprogram, hrent⟩ := deposits_evaluate
  refine ⟨fun m hm => ?_, fun m hm _ => ?_, ?_⟩
  · obtain rfl := List.mem_singleton.mp (hopen ▸ hm)
    exact ⟨hmint, hprogram⟩
  · obtain rfl := List.mem_singleton.mp (hopen ▸ hm)
    exact hheld
  · rw [hopen]
    exact hrent

theorem gifted_timely : Timely giftNode paidConfig heartbeat gifted := by
  have hnow : gifted.now = 691_200 := paidUp_evaluates.2.2.2.2.2.2.2
  exact ⟨by decide, by rw [show giftNode.now gifted = gifted.now from rfl, hnow]; decide⟩

end Sample

/-- What the keeper has sent to the associated account is distributed with the rest, and does not
    keep either crank from the finalize. -/
theorem full_masks_finalize_iff_sample :
    Executed Sample.owner (final (crankVault (Sample.giftNode.client Sample.cluster)
      Sample.keeper Sample.vault Sample.paidConfig permitted ⟨Sample.gifted, []⟩)).net ∧
    Executed Sample.owner (final (runExecutorInner (Sample.giftNode.client Sample.cluster)
      Sample.keeper Sample.vault permitted ⟨Sample.gifted, []⟩)).net := by
  have hboth := full_masks_finalize_iff Sample.giftNode Sample.keeper Sample.gifted_reachable
    Sample.gifted_config rfl Sample.paidUp_log rfl
  exact ⟨(hboth.1 _ rfl (.inl Sample.gifted_masksFull)).mpr Sample.gifted_undisturbed,
    (hboth.2 _ _ Sample.paidUp_evaluates.2.2.1 rfl (.inl Sample.gifted_masksFull)).mpr
      ⟨Sample.gifted_timely, Sample.gifted_undisturbed⟩⟩

/-- **One deposit withholds the finalize.** The masks of the sample vault are full, and the keeper
    makes an account of another mint over to it; neither crank finalizes it after that. -/
theorem deposit_withholds_finalize :
    Reachable Sample.cluster Sample.paidUp ∧
    Environment Sample.cluster Sample.paidUp Sample.stuffed ∧
    Sample.stuffed.vaultConfigs Sample.vault = some Sample.paidConfig ∧
    Sample.paidConfig.executed = false ∧
    MasksFull Sample.owner Sample.paidConfig Sample.stuffed ∧
    ¬ Executed Sample.owner (final (crankVault (Sample.openNode.client Sample.cluster)
      Sample.keeper Sample.vault Sample.paidConfig permitted ⟨Sample.stuffed, []⟩)).net ∧
    ¬ Executed Sample.owner (final (runExecutorInner (Sample.openNode.client Sample.cluster)
      Sample.keeper Sample.vault permitted ⟨Sample.stuffed, []⟩)).net := by
  have hs := Sample.stuffed_reachable
  have hcrankable : ¬ Crankable Sample.cluster Sample.openNode Sample.keeper Sample.owner
      Sample.paidConfig Sample.stuffed := fun h =>
    Sample.stuffed_disturbed ((crankable_iff hs (o := Sample.owner) Sample.paidUp_log).mp h)
  refine ⟨Sample.paidUp_reachable, Sample.stuffed_environment, Sample.stuffed_config, rfl,
    Sample.stuffed_masksFull, fun h => ?_, fun h => ?_⟩
  · exact hcrankable ((crankVault_executes_iff hs Sample.stuffed_config rfl rfl rfl).mp h).1
  · exact hcrankable ((runExecutorInner_executes_iff hs Sample.stuffed_config rfl
      Sample.paidUp_evaluates.2.2.1 rfl rfl).mp h).2.1

end DeadMansVault
