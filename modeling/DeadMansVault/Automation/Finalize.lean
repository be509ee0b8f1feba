-- SUMMARY: When a pass of the server or of the keeper finalizes an execution whose payments are all made.
import DeadMansVault.Automation.Openings
import DeadMansVault.Automation.Payments

/-!
# Automation

A pass holds back the finalize while it has given up on a mint. Where nothing fails, it gives
up on a mint exactly when the program does not let it open the mint's distribution; and a
mint that the pass selects because of some token account of the vault need not be one that
the program finds in the vault's associated account.
-/

namespace DeadMansVault.Crank

open Script World

variable {c : Cluster} {node : Node} {job : Job World} {o payer : Pubkey} {v : VaultConfig}
  {as : List AssetAssignment} {s s' w w' : World}

/-! ## Finalizing -/

/-- The pass has executed the vault if the masks have become full, and only then. -/
def Settled (o : Pubkey) (v : VaultConfig) (r : Run World) : Prop :=
  Executed o r.net ↔ MasksFull o v r.net

theorem Unfinished.settled {r : Run World} (h : Unfinished o v r.net) : Settled o v r :=
  iff_of_false h.2 h.1

/-- The pass has given up on a mint, and the vault is not executed. -/
structure HeldBack (c : Cluster) (o : Pubkey) (r : Run World) : Prop where
  stuck : r.stuckMints ≠ []
  reachable : Reachable c r.net
  unexecuted : ¬ Executed o r.net

/-- The instruction executes the vault once the masks are full. -/
theorem Pending.finalizeExecution (h : Pending c o v as w) (hvault : job.vault = .vault o)
    (hsign : job.payer.canSign = true) (hfull : MasksFull o v w) :
    ∃ w', exec c (.finalizeExecution {
        payer := job.payer
        vaultConfig := job.vault
        executionLog := .execution job.vault
        assetPlan := job.optionalPlan v.hasAssetPlan }) w = .ok w' ∧
      Executed o w' ∧ MasksFull o v w' := by
  obtain ⟨v', l, hgate, hpin, hhas, hload, hreg⟩ := h.executing
  obtain ⟨⟨l', hl', hsol⟩, hplan⟩ := hfull
  obtain rfl := Option.some.inj (hgate.log.symm.trans hl')
  obtain ⟨u, hu, hopen, hbenefs, -⟩ := h.config
  obtain rfl := Option.some.inj (hu.symm.trans hgate.config)
  have hkey : job.optionalPlan v.hasAssetPlan = u.planKey (.vault o) := by
    rw [Job.optionalPlan, VaultConfig.planKey, hhas, hvault]
  obtain ⟨w', hexec⟩ := finalizeExecution_progress (c := c) h.reachable.sound.regular.fresh hsign
    ⟨hgate.config, hgate.log, hgate.seeds⟩ hopen hpin hload (hbenefs ▸ hsol) fun p hp =>
      hplan p (hreg.symm.trans hp)
  rw [hkey, hvault]
  obtain ⟨u', l', -, hgate', -, -, -, rfl⟩ := finalizeExecution_ok hexec
  obtain rfl := Option.some.inj (hgate.log.symm.trans hgate'.log)
  refine ⟨_, hexec, ⟨_, Function.update_self .., rfl⟩, ⟨_, Function.update_self .., hsol⟩, hplan⟩

/-- The finalizing step, where what has been given up on is not paid. -/
theorem Job.OnNode.run_finalize (hjob : job.OnNode c node) (hvault : job.vault = .vault o)
    (hsign : job.payer.canSign = true) {r : Run World} (hpending : Pending c o v as r.net)
    (habandoned : Abandoned c o as r.net r.stuckMints) :
    (MasksFull o v r.net → ∃ r', job.finalize v.beneficiaries v.hasAssetPlan r = .ok ⟨⟩ r' ∧
        r'.stuckMints = r.stuckMints ∧ Executed o r'.net ∧ MasksFull o v r'.net) ∧
      (¬ MasksFull o v r.net → job.finalize v.beneficiaries v.hasAssetPlan r = .ok ⟨⟩ r) := by
  obtain ⟨l, hl⟩ := Option.isSome_iff_exists.mp hpending.log
  have hfetch : fetch (job.client.executionLog (.execution job.vault)) r = .ok l r := by
    rw [hjob.client, hvault]
    exact fetch_read (by rw [← hl]; rfl)
  have hrun : job.finalize v.beneficiaries v.hasAssetPlan r =
      (if shouldFinalize l (r.net.assetPlans (.assetPlan (.vault o))) v.beneficiaries.length
          r.stuckMints.length then
        job.guard >>= fun _ => submit job.client (.invoke (.finalizeExecution {
          payer := job.payer
          vaultConfig := job.vault
          executionLog := .execution job.vault
          assetPlan := job.optionalPlan v.hasAssetPlan }))
      else pure ⟨⟩) r :=
    (run_bind_ok hfetch).trans (run_bind_ok (hpending.fetchPlan hjob.client hvault))
  have hlaw := hpending.lawful
  have hlen : ∀ p, r.net.assetPlans (.assetPlan (.vault o)) = some p →
      p.assignments.length ≤ 64 := fun p hp => (hlaw.plan p hp).2
  have hopen : l.completed = false := by
    obtain ⟨v', hv', hopen, -⟩ := hpending.config
    refine Bool.eq_false_iff.mpr fun hdone => ?_
    have hexecuted := (hlaw.executed v' hv').mpr ⟨l, hl, hdone⟩
    exact Bool.false_ne_true (hopen.symm.trans hexecuted)
  -- What is given up on is not paid, so that the count of stuck mints does not matter here.
  have hshould : shouldFinalize l (r.net.assetPlans (.assetPlan (.vault o)))
      v.beneficiaries.length r.stuckMints.length = true ↔ MasksFull o v r.net := by
    have hsol : l.solPaidMask.toNat = fullMask v.beneficiaries.length ↔
        l.solPaidMask = fullMaskU32 v.beneficiaries.length := by
      rw [← BitVec.toNat_inj, fullMaskU32, Bitmask.toNat_full hpending.count]
      rfl
    have hplan : ∀ p, r.net.assetPlans (.assetPlan (.vault o)) = some p →
        (p.paidMask.toNat = fullMask p.assignments.length ↔
          p.paidMask = fullMaskU64 p.assignments.length) := by
      intro p hp
      rw [← BitVec.toNat_inj, fullMaskU64, Bitmask.toNat_full (hlen p hp)]
      rfl
    constructor
    · intro hyes
      unfold shouldFinalize at hyes
      rw [hopen] at hyes
      simp only [Bool.false_eq_true, if_false, Bool.if_false_left, Bool.and_eq_true,
        decide_eq_true_eq] at hyes
      refine ⟨⟨l, hl, hsol.mp hyes.2.1⟩, fun p hp => ?_⟩
      rw [hp] at hyes
      exact (hplan p hp).mp (of_decide_eq_true hyes.2.2)
    · intro hfull
      have hstuck : r.stuckMints = [] := by
        by_contra hne
        exact ((habandoned.unpaid hne).unfinished hpending).1 hfull
      obtain ⟨⟨l', hl', hmask⟩, hpaid⟩ := hfull
      obtain rfl := Option.some.inj (hl.symm.trans hl')
      unfold shouldFinalize
      rw [hopen, hstuck, hsol.mpr hmask]
      cases hp : r.net.assetPlans (.assetPlan (.vault o)) with
      | none => simp
      | some p => simp [(hplan p hp).mpr (hpaid p hp)]
  rw [hrun]
  refine ⟨fun hfull => ?_, fun hfull => ?_⟩
  · obtain ⟨w', hexec, hexecuted, hfull'⟩ := hpending.finalizeExecution hvault hsign hfull
    have hlands : (Submission.invoke (.finalizeExecution {
        payer := job.payer
        vaultConfig := job.vault
        executionLog := .execution job.vault
        assetPlan := job.optionalPlan v.hasAssetPlan })).lands c r.net = some w' := by
      rw [Submission.lands, hexec]
      rfl
    obtain ⟨r', hsent, rfl, hstuck⟩ := hjob.send_lands hlands
    rw [if_pos (hshould.mpr hfull)]
    exact ⟨r', hsent, hstuck, hexecuted, hfull'⟩
  · rw [if_neg (fun hyes => hfull (hshould.mp hyes))]
    rfl

theorem Job.OnNode.finalize (hjob : job.OnNode c node) (hvault : job.vault = .vault o)
    (hsign : job.payer.canSign = true) :
    Meets (fun r => Pending c o v as r.net ∧ Abandoned c o as r.net r.stuckMints)
      (job.finalize v.beneficiaries v.hasAssetPlan)
      (fun _ => Settled o v) (fun _ => Settled o v) := by
  rintro r ⟨hpending, habandoned⟩
  obtain ⟨hyes, hno⟩ := hjob.run_finalize hvault hsign hpending habandoned
  by_cases hfull : MasksFull o v r.net
  · obtain ⟨r', hrun, -, hexecuted, hfull'⟩ := hyes hfull
    rw [hrun]
    exact iff_of_true hexecuted hfull'
  · rw [hno hfull]
    exact iff_of_false hpending.not_executed hfull

/-! ## What the other steps keep -/

/-- A transaction other than a finalize. -/
def Unfinal (submission : Submission) : Prop :=
  ∀ ctx, submission.instruction ≠ some (.finalizeExecution ctx)

theorem Unfinal.invoke {i : Instruction} (h : ∀ ctx, i ≠ .finalizeExecution ctx) :
    Unfinal (.invoke i) := fun ctx heq => h ctx (Option.some.inj heq)

theorem Unfinal.invokeWith {programId : ProgramId} {harvest : List Pubkey}
    {instruction : TokenProgram → Instruction}
    (h : ∀ program ctx, instruction program ≠ .finalizeExecution ctx) :
    Unfinal (.invokeWith programId harvest instruction) := by
  intro ctx heq
  cases programId with
  | token program => exact h program ctx (Option.some.inj heq)
  | other => cases heq

theorem Unfinal.createAta (ata owner mint : Pubkey) (programId : ProgramId) :
    Unfinal (.createAta ata owner mint programId) := fun ctx heq => by cases heq

/-- It executes no vault. -/
theorem Unfinal.executed {submission : Submission} (h : Unfinal submission)
    (hs : Reachable c s) (hlands : submission.lands c s = some s') (hexecuted : Executed o s') :
    Executed o s := by
  obtain ⟨v', hv', hdone⟩ := hexecuted
  rcases Submission.lands_cases hlands with ⟨i, hi, hexec⟩ | ⟨account, rfl⟩
  · obtain ⟨acts, hrun, -, hacts⟩ :=
      step_refines (harvest_reachable hs submission.harvest).sound (.executed hexec) o
    dsimp only at hacts
    have hdeeds : ∀ a ∈ acts, ∀ payer, a.deed ≠ .finalize payer := by
      intro a ha payer hdeed
      by_cases ho : i.vaultKey = .vault o
      · rw [if_pos ho] at hacts
        have hmem : Deed.finalize payer ∈ acts.map (·.deed) := hdeed ▸ List.mem_map_of_mem ha
        cases i with
        | finalizeExecution ctx => exact h ctx hi
        | executeSolShares | executeTokenShares =>
            obtain ⟨_, hshare⟩ := hacts _ hmem
            cases hshare
        | _ =>
            simp only [Instruction.Unfolds] at hacts
            rw [hacts, List.mem_singleton] at hmem
            cases hmem
      · rw [if_neg ho] at hacts
        rw [hacts, List.mem_singleton] at ha
        rw [ha] at hdeed
        cases hdeed
    by_contra hopen
    have hunexecuted := (hrun.restrict hdeeds).preserves
      (P := fun F : Estate => ∀ v, F.config = some v → v.executed = false)
      (fun F a F' hF hstep => hstep.1.unexecuted hF hstep.2) fun v hv => ?_
    · exact Bool.false_ne_true ((hunexecuted v' hv').symm.trans hdone)
    · exact Bool.eq_false_iff.mpr fun hyes => hopen ⟨v, hv, hyes⟩
  · obtain ⟨t, ht⟩ := createAta_eq (c := c) s account
    rw [ht] at hv'
    exact ⟨v', hv', hdone⟩

theorem executed_congr (h : s'.vaultConfigs (.vault o) = s.vaultConfigs (.vault o)) :
    Executed o s' ↔ Executed o s := by
  unfold Executed
  rw [h]

/-- A transaction that may come after the finalize, and leaves the masks as they are. -/
structure Trailing (c : Cluster) (o : Pubkey) (submission : Submission) : Prop where
  unfinal : Unfinal submission
  logs : ∀ s s', submission.lands c s = some s' → s'.executionLogs = s.executionLogs
  plans : ∀ s s', submission.lands c s = some s' → s'.assetPlans = s.assetPlans
  executed : ∀ s s', submission.lands c s = some s' → (Executed o s' ↔ Executed o s)

theorem trailing_createAta (ata owner mint : Pubkey) (programId : ProgramId) :
    Trailing c o (.createAta ata owner mint programId) := by
  have hlands : ∀ s s', (Submission.createAta ata owner mint programId).lands c s = some s' →
      ∃ t, s' = s.putTokenAccounts t := by
    intro s s' h
    rw [Submission.lands] at h
    split at h
    · obtain rfl := Option.some.inj h
      exact createAta_eq s (owner, mint)
    · cases h
  refine ⟨.createAta _ _ _ _, fun s s' h => ?_, fun s s' h => ?_, fun s s' h => ?_⟩ <;>
    obtain ⟨t, rfl⟩ := hlands s s' h <;> rfl

theorem trailing_tokenShares (programId : ProgramId) (ctx : TokenProgram → ExecuteTokenShares)
    (part : List Nat) : Trailing c o
      (.invokeWith programId [] fun program => .executeTokenShares (ctx program) part) := by
  have hlands : ∀ s s', (Submission.invokeWith programId [] fun program =>
      .executeTokenShares (ctx program) part).lands c s = some s' →
      s'.executionLogs = s.executionLogs ∧ s'.assetPlans = s.assetPlans ∧
        s'.vaultConfigs = s.vaultConfigs := by
    intro s s' h
    cases programId with
    | other => cases h
    | token program =>
        have hexec := Submission.exec_of_lands (i := .executeTokenShares _ _) rfl rfl h
        obtain ⟨_, _, _, -, -, -, -, -, -, hturns⟩ := executeTokenShares_ok hexec
        refine hturns.preserves (P := fun t => t.executionLogs = s.executionLogs ∧
          t.assetPlans = s.assetPlans ∧ t.vaultConfigs = s.vaultConfigs)
          (fun t entry t' ht hturn => ?_) ⟨rfl, rfl, rfl⟩
        obtain ⟨_, _, -, -, ⟨-, rfl⟩ | ⟨-, _, -, -, -, rfl⟩⟩ := payTokenShare_ok hturn
        · exact ht
        · exact ht
  exact ⟨.invokeWith fun _ _ => nofun, fun s s' h => (hlands s s' h).1,
    fun s s' h => (hlands s s' h).2.1,
    fun s s' h => executed_congr (congrFun (hlands s s' h).2.2 _)⟩

theorem trailing_closeTokenDist (programId : ProgramId) (harvest : List Pubkey)
    (ctx : TokenProgram → CloseTokenDist) : Trailing c o
      (.invokeWith programId harvest fun program => .closeTokenDist (ctx program)) := by
  have hlands : ∀ s s', (Submission.invokeWith programId harvest fun program =>
      .closeTokenDist (ctx program)).lands c s = some s' →
      s'.executionLogs = s.executionLogs ∧ s'.assetPlans = s.assetPlans ∧
        (Executed o s' ↔ Executed o s) := by
    intro s s' h
    cases programId with
    | other => cases h
    | token program =>
        have hexec := Submission.exec_of_harvest (i := .closeTokenDist _) rfl h
        obtain ⟨v, _, _, _, s₁, s₂, -, hv, hseeds, hexecuted, -, -, -, rfl, -, -, rfl, rfl⟩ :=
          closeTokenDist_ok hexec
        refine ⟨rfl, rfl, ?_⟩
        -- The config of the vault that is closed is written, and that vault is executed.
        by_cases ho : (ctx program).vaultConfig = .vault o
        · rw [ho] at hv
          refine iff_of_true ⟨{ v with openTokenDists := v.openTokenDists - 1 }, ?_, hexecuted⟩
            ⟨v, hv, hexecuted⟩
          show Function.update s.vaultConfigs (ctx program).vaultConfig _ (.vault o) = _
          rw [ho]
          exact Function.update_self ..
        · refine executed_congr ?_
          show Function.update s.vaultConfigs (ctx program).vaultConfig _ (.vault o) = _
          exact Function.update_of_ne (Ne.symm ho) ..
  exact ⟨.invokeWith fun _ _ => nofun, fun s s' h => (hlands s s' h).1,
    fun s s' h => (hlands s s' h).2.1, fun s s' h => (hlands s s' h).2.2⟩

/-- The masks are full in one world as in the other. -/
theorem masksFull_congr (hlogs : s'.executionLogs = s.executionLogs)
    (hplans : s'.assetPlans = s.assetPlans) : MasksFull o v s' ↔ MasksFull o v s :=
  ⟨fun ⟨hsol, hplan⟩ => ⟨hlogs ▸ hsol, hplans ▸ hplan⟩,
    fun ⟨hsol, hplan⟩ => ⟨hlogs.symm ▸ hsol, hplans.symm ▸ hplan⟩⟩

theorem stable_masksFull : Stable c (Trailing c o) fun r => MasksFull o v r.net where
  entry _ _ _ hr := hr
  lands _ _ _ htrailing hlands hr :=
    (masksFull_congr (htrailing.logs _ _ hlands) (htrailing.plans _ _ hlands)).mpr hr

theorem stable_settled : Stable c (Trailing c o) (Settled o v) where
  entry _ _ _ hr := hr
  lands _ _ _ htrailing hlands hr :=
    (htrailing.executed _ _ hlands).trans (hr.trans
      (masksFull_congr (htrailing.logs _ _ hlands) (htrailing.plans _ _ hlands)).symm)

theorem stable_heldBack : Stable c Unfinal (HeldBack c o) where
  entry r entry _ hr := by
    refine ⟨?_, hr.reachable, hr.unexecuted⟩
    obtain ⟨m, hm⟩ := List.exists_mem_of_ne_nil _ hr.stuck
    refine List.ne_nil_of_mem (a := m) ?_
    show m ∈ (r.log ++ [entry]).filterMap _
    rw [List.filterMap_append]
    exact List.mem_append_left _ hm
  lands r submission s' hunfinal hlands hr :=
    ⟨hr.stuck, Submission.lands_reachable hr.reachable hlands,
      fun hexecuted => hr.unexecuted (hunfinal.executed hr.reachable hlands hexecuted)⟩

theorem Job.OnNode.finalize_heldBack (hjob : job.OnNode c node) (beneficiaries : List Beneficiary)
    (hasPlan : Bool) :
    Meets (HeldBack c o) (job.finalize beneficiaries hasPlan) (fun _ => HeldBack c o)
      (fun _ => HeldBack c o) := by
  have hclosed := hjob.closed (S := Unfinal)
  refine ((hclosed.fetch (hclosed.executionLog _)).meets _ stable_heldBack).bind fun log => ?_
  refine ((hclosed.fetchPlan hasPlan).meets _ stable_heldBack).bind fun plan => ?_
  refine Meets.get_bind fun r₀ hr₀ => ?_
  have hback : shouldFinalize log plan beneficiaries.length r₀.stuckMints.length = false := by
    simp [shouldFinalize, List.length_pos_iff.mpr hr₀.stuck]
  rw [hback]
  rintro _ rfl
  exact hr₀

/-! ## Distributions -/

/-- The mints that a pass over the vault of `o` selects. -/
def Node.selected (c : Cluster) (node : Node) (o : Pubkey) (s : World) :
    List (Pubkey × ProgramId) :=
  node.selection c s (.vault o) (s.assetPlans (.assetPlan (.vault o)))

/-- All of them can be opened, unless they are already. -/
def Unhindered (c : Cluster) (node : Node) (payer : Pubkey) (o : Pubkey) (s : World) : Prop :=
  Openable c payer (.vault o) (s.estate c o).assignments s (node.selected c o s)

/-- The steps after the openings. -/
def Job.settle (job : Job World) (cfg : VaultConfig) (plan : Option AssetPlan)
    (mints : List (Pubkey × ProgramId)) : Routine World (List (Pubkey × ProgramId)) := do
  (plan.toList.flatMap (·.assignments.zipIdx)).forM
    (job.specificBequest cfg.beneficiaries mints ((plan.map (·.paidMask)).getD 0))
  let log ← fetch (job.client.executionLog (.execution job.vault))
  (chunk (Job.unpaid cfg.beneficiaries log.solPaidMask) batch).forM
    (job.solShares cfg.beneficiaries)
  job.finalize cfg.beneficiaries cfg.hasAssetPlan
  mints.forM (job.tokenShares cfg.beneficiaries)
  pure mints

/-- The openings, once the execution is under way. -/
theorem Job.OnNode.run_openings (hjob : job.OnNode c node) (hvault : job.vault = .vault o)
    (hsign : job.payer.canSign = true) {expire : Routine World PUnit}
    (hexpire : ∀ r, expire r = .ok ⟨⟩ r) {r₀ : Run World} (h : Pending c o v as r₀.net)
    (hnone : r₀.stuckMints = [])
    (hbegin : job.beginExecution v.hasAssetPlan ⟨s, []⟩ = .ok ⟨⟩ r₀) :
    ∃ r, Pending c o v as r.net ∧ r.net.assetPlans = r₀.net.assetPlans ∧
      (r.stuckMints = [] ↔ Unhindered c node job.payer o r₀.net) ∧
      (node.selected c o r₀.net).forM (job.beginTokenDist v.hasAssetPlan) r₀ = .ok ⟨⟩ r ∧
      (r.stuckMints = [] → ∀ entry ∈ node.selected c o r₀.net, DistOpen o r.net entry.1) ∧
      job.distribute expire v ⟨s, []⟩ =
        job.settle v (r₀.net.assetPlans (.assetPlan (.vault o))) (node.selected c o r₀.net) r := by
  let plan := r₀.net.assetPlans (.assetPlan (.vault o))
  let mints := node.selected c o r₀.net
  obtain ⟨r, hloop, h', hplans, -, hstuck, hopen⟩ := hjob.beginTokenDists mints hvault hsign
    (node.nodup_selection r₀.net (.vault o) plan) h
  have hplan : job.fetchPlan v.hasAssetPlan r₀ = .ok plan r₀ :=
    Pending.fetchPlan hjob.client hvault h
  have hcollect : collectMints job.client expire job.vault plan r₀ = .ok mints r₀ := by
    rw [hjob.client, hvault]
    exact collectMints_onNode (hexpire _) _ _
  refine ⟨r, h', hplans, ?_, hloop, hopen, ?_⟩
  · rw [hstuck, ← h.assignments]
    exact and_iff_right hnone
  · exact (run_bind_ok hbegin).trans ((run_bind_ok hplan).trans
      ((run_bind_ok hcollect).trans (run_bind_ok hloop)))

/-- What a pass goes by when it pays the bequests. -/
theorem Pending.entries (h : Pending c o v as w) {plan : Option AssetPlan}
    (hplan : w.assetPlans (.assetPlan (.vault o)) = plan) :
    plan.toList.flatMap (·.assignments.zipIdx) = as.zipIdx ∧
      ∀ j, bitSet ((plan.map (·.paidMask)).getD 0) j = true ↔
        Bitmask.test (w.estate c o).planBits j = true := by
  subst hplan
  cases hp : w.assetPlans (.assetPlan (.vault o)) with
  | none =>
      have hassign := h.assignments
      simp only [Estate.assignments, World.estate, hp, Option.elim_none] at hassign
      rw [← hassign]
      refine ⟨rfl, fun j => ?_⟩
      simp [bitSet, Estate.planBits, World.estate, hp]
  | some p =>
      obtain ⟨hassign, hbits⟩ := h.plan_assignments hp
      rw [← hassign, hbits]
      refine ⟨by simp, fun j => ?_⟩
      rw [Bitmask.test_eq_getLsbD]
      rfl

/-- Where no mint is given up on before, the pass finalizes unless something stays unpaid. -/
theorem Job.OnNode.settle_settled (hjob : job.OnNode c node) (hvault : job.vault = .vault o)
    (hsign : job.payer.canSign = true) {plan : Option AssetPlan}
    (mints : List (Pubkey × ProgramId)) {r : Run World}
    (h : Pending c o v as r.net) (hplan : r.net.assetPlans (.assetPlan (.vault o)) = plan)
    (hnone : r.stuckMints = []) :
    Meets (fun r' => r' = r) (job.settle v plan mints) (fun _ => Settled o v)
      (fun _ => Settled o v) := by
  obtain ⟨hentries, hread⟩ := h.entries hplan
  have hmidway : Midway c o v as ((plan.map (·.paidMask)).getD 0) 0 r.net r.stuckMints :=
    ⟨h, fun j _ hbit => (hread j).mpr hbit, by rw [hnone]; exact nofun⟩
  unfold Job.settle
  rw [hentries]
  refine Meets.bind (Q := fun _ r => Midway c o v as _ as.length r.net r.stuckMints)
    ((hjob.specificBequests hvault v.beneficiaries mints).mono (fun r' hr' => hr' ▸ hmidway)
      (fun _ _ h => h) fun _ _ h => h.settled) fun _ => ?_
  refine Meets.bind (Q := fun log r => Sharing c o v as log.solPaidMask [] r.net r.stuckMints)
    (fun r hr => ?_) fun log => ?_
  · obtain ⟨l, hl⟩ := Option.isSome_iff_exists.mp hr.pending.log
    have hfetch : fetch (job.client.executionLog (.execution job.vault)) r = .ok l r := by
      rw [hjob.client, hvault]
      exact fetch_read (by rw [← hl]; rfl)
    rw [hfetch]
    refine ⟨hr.pending, fun i _ hbit => ?_, hr.abandoned⟩
    simp only [Estate.shareBits, World.estate, hl, Option.elim_some] at hbit
    rwa [Bitmask.test_eq_getLsbD] at hbit
  refine Meets.bind ((hjob.solSharesAll hvault log.solPaidMask).mono (fun _ h => h)
    (fun _ _ h => h) fun _ _ h => h.settled) fun _ => ?_
  refine (hjob.finalize hvault hsign).bind fun _ => ?_
  have hclosed := hjob.closed (S := Trailing c o)
  have htokens := hclosed.forM mints fun entry => hclosed.tokenShares v.beneficiaries
    (fun _ _ _ _ _ => trailing_createAta ..) (fun key => hjob.preserves_tokenDist key)
    (fun _ _ _ _ => trailing_tokenShares ..) entry
  refine (htokens.meets _ stable_settled).bind fun _ => ?_
  exact fun _ h => h

/-- Where a mint is given up on, it never does. -/
theorem Job.OnNode.settle_heldBack (hjob : job.OnNode c node) (cfg : VaultConfig)
    (plan : Option AssetPlan) (mints : List (Pubkey × ProgramId)) :
    Meets (HeldBack c o) (job.settle cfg plan mints) (fun _ => HeldBack c o)
      (fun _ => HeldBack c o) := by
  have hclosed := hjob.closed (S := Unfinal)
  have hbequests := hclosed.forM (plan.toList.flatMap (·.assignments.zipIdx)) fun entry =>
    hclosed.specificBequest cfg.beneficiaries
      (fun _ _ _ _ _ => Unfinal.createAta _ _ _ _) (fun _ _ _ => .invoke fun _ => nofun)
      (fun _ _ _ _ => .invokeWith fun _ _ => nofun) mints ((plan.map (·.paidMask)).getD 0) entry
  refine (hbequests.meets _ stable_heldBack).bind fun _ => ?_
  refine ((hclosed.fetch (hclosed.executionLog _)).meets _ stable_heldBack).bind fun log => ?_
  have hshares := hclosed.forM (chunk (Job.unpaid cfg.beneficiaries log.solPaidMask) batch)
    fun part => hclosed.solShares (fun _ _ _ => .invoke fun _ => nofun) cfg.beneficiaries part
  refine (hshares.meets _ stable_heldBack).bind fun _ => ?_
  refine (hjob.finalize_heldBack _ _).bind fun _ => ?_
  have htokens := hclosed.forM mints fun entry => hclosed.tokenShares cfg.beneficiaries
    (fun _ _ _ _ _ => Unfinal.createAta _ _ _ _) (fun key => hjob.preserves_tokenDist key)
    (fun _ _ _ _ => .invokeWith fun _ _ => nofun) entry
  refine (htokens.meets _ stable_heldBack).bind fun _ => ?_
  exact fun _ h => h

end DeadMansVault.Crank
