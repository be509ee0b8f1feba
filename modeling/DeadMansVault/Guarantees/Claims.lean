-- SUMMARY: What the claim builder returns for an estate that is distributed, and when that is nothing.
import DeadMansVault.Device.Claim
import DeadMansVault.Guarantees.Gates
import DeadMansVault.Program.Scenario

/-!
# Claims on a distributed estate

The builder tells what remains by the accounts that it finds. Of an executed vault
nothing is left but the distributions of its mints; one that was closed looks to it
like one that was never opened, and is opened again.
-/

namespace DeadMansVault

open Crank Device Script World

variable {σ : Type} {c : Cluster} {w : World} {owner : Pubkey}

/-- Every read of a claim answers, and answers from the world; `held` are the token accounts
that the RPC lists for the vault. -/
structure Device.ClaimEnv.Shows (env : ClaimEnv σ) (w : World) (owner : Pubkey)
    (held : TokenProgram → List (Pubkey × Nat)) : Prop where
  vaultConfig : ∀ k net, env.client.vaultConfig k net = (.ok (w.vaultConfigs k), net)
  executionLog : ∀ k net, env.client.executionLog k net = (.ok (w.executionLogs k), net)
  assetPlan : ∀ k net, env.client.assetPlan k net = (.ok (w.assetPlans k), net)
  tokenDist : ∀ k net, env.client.tokenDist k net = (.ok (w.tokenDists k), net)
  tokenAccounts : ∀ program net,
    env.client.tokenAccountsByOwner (.vault owner) program net = (.ok (held program), net)
  accountInfo : ∀ k, ∃ info, ∀ net, env.client.accountInfo k net = (.ok info, net)
  deadline : ∀ v h, w.vaultConfigs (.vault owner) = some v →
    w.heartbeatRecords (.heartbeat (.vault owner)) = some h →
    ∀ net, env.getOnChainDeadline owner net = (some (v.deadlineAt h), net)
  blockTime : ∀ net, env.blockTime net = (.ok (some w.now), net)

/-- The mints of a claim. -/
def claimMints (w : World) (owner : Pubkey) (v : VaultConfig)
    (held : TokenProgram → List (Pubkey × Nat)) : List Pubkey :=
  selectMints (((held .token ++ held .token2022).filter fun account => 0 < account.2).map (·.1))
    (w.registeredPlan (.vault owner) v)

/-- The vault is executed, and each distribution of its mints that is open is paid. -/
structure Distributed (c : Cluster) (w : World) (owner : Pubkey) (v : VaultConfig)
    (held : TokenProgram → List (Pubkey × Nat)) : Prop where
  reachable : Reachable c w
  config : w.vaultConfigs (.vault owner) = some v
  executed : v.executed = true
  paid : ∀ m ∈ claimMints w owner v held, ∀ d, w.tokenDists (.tokenDist (.vault owner) m) = some d →
    d.paidMask = fullMaskU32 v.beneficiaries.length

/-- What the builder has to open a mint with: nothing, if there is a distribution of it. -/
def Device.ClaimEnv.openings (env : ClaimEnv σ) (w : World) (heir owner : Pubkey)
    (hasAssetPlan : Bool) (program : TokenProgram) (mint : Pubkey) : List ClaimStep :=
  if (w.tokenDists (.tokenDist (.vault owner) mint)).isSome then [] else
    [env.snapshotStep heir owner hasAssetPlan mint (.associatedToken (.vault owner) mint program)
      program]

theorem Device.ClaimEnv.openings_eq_nil_iff {env : ClaimEnv σ} {heir mint : Pubkey}
    {hasAssetPlan : Bool} {program : TokenProgram} :
    env.openings w heir owner hasAssetPlan program mint = [] ↔
      (w.tokenDists (.tokenDist (.vault owner) mint)).isSome = true := by
  unfold openings
  split <;> simp_all

/-! ## Full masks -/

theorem unpaidIndices_full {n : Nat} (h : n ≤ maxBeneficiaries) :
    unpaidIndices (fullMaskU32 n) n = [] := by
  refine List.filter_eq_nil_iff.mpr fun i hi => ?_
  have hlt : i < n := List.mem_range.mp hi
  have hmax : n ≤ 20 := h
  have hbit := Bitmask.test_full (show n ≤ 32 by omega) i
  rw [Bitmask.test_eq_getLsbD] at hbit
  rw [Nat.mod_eq_of_lt (by omega), fullMaskU32, hbit]
  simp [hlt]

theorem chunk_nil {α : Type} : chunk ([] : List α) batch = [] := by
  simp [chunk, batch]

/-! ## Reads -/

theorem gives_call {α : Type} {f : σ → Except JsError α × σ} {a : α}
    (h : ∀ net, f net = (.ok a, net)) : Gives (call f) a := by
  intro r
  unfold call
  rw [h r.net]

namespace Device.ClaimEnv.Shows

variable {env : ClaimEnv σ} {held : TokenProgram → List (Pubkey × Nat)}

theorem gives_config (h : env.Shows w owner held) :
    Gives (fetchVaultConfig env.client (.vault owner)) (w.vaultConfigs (.vault owner)) :=
  (gives_call (h.vaultConfig _)).tryCatch

theorem gives_held (h : env.Shows w owner held) : Gives (heldMints env.client (.vault owner))
    (((held .token ++ held .token2022).filter fun account => 0 < account.2).map (·.1)) :=
  (gives_call (h.tokenAccounts .token)).bind <| (gives_call (h.tokenAccounts .token2022)).bind <|
    .pure _

theorem gives_plan (h : env.Shows w owner held) (v : VaultConfig) :
    Gives (fetchAssetPlan env.client (.vault owner) v.hasAssetPlan)
      (w.registeredPlan (.vault owner) v) := by
  unfold fetchAssetPlan World.registeredPlan
  split
  · exact gives_call (h.assetPlan _)
  · exact .pure none

theorem gives_programs (h : env.Shows w owner held) : ∃ programs : Pubkey → TokenProgram,
    ∀ mint, Gives (getTokenProgramForMint env.client mint) (programs mint) := by
  choose info hinfo using h.accountInfo
  exact ⟨_, fun mint => (gives_call (hinfo mint)).bind (.pure _)⟩

/-- The address of the vault's own account is always derived. -/
theorem gives_vaultAta (client : Client σ) (mint owner : Pubkey) (program : TokenProgram) :
    Gives (ataFor client mint (.vault owner) true program)
      (.associatedToken (.vault owner) mint program) := by
  unfold ataFor getAssociatedTokenAddress
  rw [if_neg (by simp)]
  exact .pure _

/-- A mint is opened when it has no distribution. -/
theorem gives_snapshot (h : env.Shows w owner held) {mint : Pubkey} {program : TokenProgram}
    (hprogram : Gives (getTokenProgramForMint env.client mint) program) (heir : Pubkey)
    (hasAssetPlan : Bool) : Gives (env.snapshotSteps heir owner hasAssetPlan mint)
      (env.openings w heir owner hasAssetPlan program mint) := by
  have hread := gives_call (h.tokenDist (.tokenDist (.vault owner) mint))
  unfold snapshotSteps openings
  cases hdist : w.tokenDists (.tokenDist (.vault owner) mint) with
  | some d =>
      rw [hdist] at hread
      exact hread.bind (.pure [])
  | none =>
      rw [hdist] at hread
      exact hread.bind (hprogram.bind ((gives_vaultAta env.client mint owner program).bind (.pure _)))

end Device.ClaimEnv.Shows

namespace Distributed

variable {env : ClaimEnv σ} {held : TokenProgram → List (Pubkey × Nat)} {v : VaultConfig}

theorem count_le (h : Distributed c w owner v held) :
    v.beneficiaries.length ≤ maxBeneficiaries :=
  ((h.reachable.lawful owner).accepted v h.config).1.count.2

/-- The log of an executed vault is completed, and every SOL share is paid. -/
theorem log (h : Distributed c w owner v held) :
    ∃ l, w.executionLogs (.execution (.vault owner)) = some l ∧ l.completed = true ∧
      l.solPaidMask = fullMaskU32 v.beneficiaries.length := by
  obtain ⟨l, hl, hdone⟩ := ((h.reachable.lawful owner).executed v h.config).mp h.executed
  exact ⟨l, hl, hdone, h.reachable.sharesPaid owner v l h.config hl h.executed⟩

/-- Every bequest is paid. -/
theorem bequest_paid (h : Distributed c w owner v held) {entry : AssetAssignment × Nat}
    (hentry : entry ∈ (w.registeredPlan (.vault owner) v).elim [] (·.assignments.zipIdx)) :
    bitSet ((w.registeredPlan (.vault owner) v).elim 0 (·.paidMask)) entry.2 = true := by
  unfold World.registeredPlan at hentry ⊢
  split at hentry
  · have hpaid := h.reachable.paidUp owner v h.config h.executed
    cases hp : w.assetPlans (.assetPlan (.vault owner)) with
    | none =>
        rw [hp] at hentry
        cases hentry
    | some p =>
        rw [hp] at hentry
        have hplan : (w.estate c owner).plan = some p := hp
        have hlt : entry.2 < p.assignments.length := (List.mem_zipIdx' hentry).1
        have hbit := hpaid entry.2 (by rw [Estate.assignments, hplan]; exact hlt)
        rw [Estate.planBits, hplan, Bitmask.test_eq_getLsbD] at hbit
        rw [if_pos ‹_›]
        exact hbit
  · cases hentry

/-- The deadline of an executed vault has passed. -/
theorem deadline_passed (h : Distributed c w owner v held) :
    ∃ hb, w.heartbeatRecords (.heartbeat (.vault owner)) = some hb ∧ v.deadlineAt hb ≤ w.now := by
  obtain ⟨l, hl, -⟩ := h.log
  obtain ⟨v', hb, hv', hhb, hdeadline, hnow⟩ := (h.reachable.lawful owner).started l hl
  obtain rfl := Option.some.inj (h.config.symm.trans hv')
  exact ⟨hb, hhb, hdeadline.trans hnow⟩

theorem gives_bequests (h : Distributed c w owner v held) (env : ClaimEnv σ) (heir : Pubkey) :
    Gives (((w.registeredPlan (.vault owner) v).elim [] (·.assignments.zipIdx)).mapM
      (env.bequestSteps heir owner v ((w.registeredPlan (.vault owner) v).elim 0 (·.paidMask))))
      (((w.registeredPlan (.vault owner) v).elim [] (·.assignments.zipIdx)).map fun _ => []) := by
  refine Gives.mapM fun entry hentry => ?_
  obtain ⟨a, j⟩ := entry
  unfold ClaimEnv.bequestSteps
  dsimp only
  rw [if_pos (h.bequest_paid hentry)]
  exact .pure []

theorem gives_tokenShares (h : Distributed c w owner v held) (hshows : env.Shows w owner held)
    (heir : Pubkey) : Gives ((claimMints w owner v held).mapM (env.tokenShareSteps heir owner v))
      ((claimMints w owner v held).map fun _ => []) := by
  refine Gives.mapM fun mint hmint => ?_
  have hread := gives_call (hshows.tokenDist (.tokenDist (.vault owner) mint))
  unfold ClaimEnv.tokenShareSteps
  cases hdist : w.tokenDists (.tokenDist (.vault owner) mint) with
  | none =>
      rw [hdist] at hread
      exact hread.bind (.pure [])
  | some d =>
      rw [hdist] at hread
      obtain ⟨programs, hprograms⟩ := hshows.gives_programs
      refine hread.bind ((hprograms mint).bind ?_)
      refine (ClaimEnv.Shows.gives_vaultAta env.client mint owner (programs mint)).bind ?_
      rw [h.paid mint hmint d hdist, unpaidIndices_full h.count_le, chunk_nil]
      exact .pure []

/-- All that is built is what opens the mints that have no distribution. -/
theorem gives_build (h : Distributed c w owner v held) (hshows : env.Shows w owner held)
    {programs : Pubkey → TokenProgram}
    (hprograms : ∀ mint, Gives (getTokenProgramForMint env.client mint) (programs mint))
    (heir : Pubkey) : Gives (env.buildClaimTransactions heir owner)
      ((claimMints w owner v held).flatMap fun mint =>
        env.openings w heir owner v.hasAssetPlan (programs mint) mint) := by
  have hsteps : Gives ((claimMints w owner v held).mapM
      (env.snapshotSteps heir owner v.hasAssetPlan)) _ :=
    .mapM fun mint _ => hshows.gives_snapshot (hprograms mint) heir v.hasAssetPlan
  obtain ⟨l, hl, hdone, hfull⟩ := h.log
  have hconfig := hshows.gives_config
  rw [h.config] at hconfig
  have hlog := gives_call (hshows.executionLog (.execution (.vault owner)))
  rw [hl] at hlog
  unfold ClaimEnv.buildClaimTransactions
  refine hconfig.bind (hlog.bind (hshows.gives_held.bind ((hshows.gives_plan v).bind ?_)))
  rw [if_neg (by simp)]
  unfold ClaimEnv.generalPath
  refine hsteps.bind ((h.gives_bequests env heir).bind ?_)
  simp only [Option.elim_some, hfull, unpaidIndices_full h.count_le, chunk_nil]
  refine (Gives.pure []).bind ((h.gives_tokenShares hshows heir).bind ?_)
  simp only [Option.isNone_some, Bool.false_eq_true, if_false, Option.any_some, hdone, if_true,
    List.nil_append, List.append_nil, List.map_const', List.flatten_replicate_nil,
    ← List.flatMap_def]
  exact .pure _

/-- The check of the deadline lets the claim pass. -/
theorem gives_checkDeadline (h : Distributed c w owner v held) (hshows : env.Shows w owner held) :
    Gives (env.checkDeadline owner) ⟨⟩ := by
  obtain ⟨hb, hhb, hpassed⟩ := h.deadline_passed
  have hread := hshows.deadline v hb h.config hhb
  unfold ClaimEnv.checkDeadline
  refine Gives.bind (a := some (v.deadlineAt hb)) (gives_call fun net => by rw [hread net])
    ((gives_call hshows.blockTime).bind ?_)
  rw [if_neg (by simpa using hpassed)]
  exact .pure _

end Distributed

/-! ## A client of a world that stands still -/

/-- Reads are answered from the world, and nothing is refused. -/
def Crank.Client.still (c : Cluster) (w : World) (held : TokenProgram → List (Pubkey × Nat)) :
    Client PUnit where
  priorityFee net := (.ok ⟨⟩, net)
  deadline net := (.ok ⟨⟩, net)
  now net := (w.now, net)
  vaultConfig k net := (.ok (w.vaultConfigs k), net)
  heartbeatRecord k net := (.ok (w.heartbeatRecords k), net)
  executionLog k net := (.ok (w.executionLogs k), net)
  assetPlan k net := (.ok (w.assetPlans k), net)
  tokenDist k net := (.ok (w.tokenDists k), net)
  tokenAccountsByOwner _ program net := (.ok (held program), net)
  accountInfo k net := (.ok ((w.mints k).elim ((w.tokenAccounts k).bind (·.program.map .token))
    fun _ => some (.token (c.tokenProgram k))), net)
  tokenAccount k _ net := (.ok (w.tokenAmounts k, 0), net)
  sendAndConfirm _ net := (.ok ⟨⟩, net)
  onCurve k := match k with
    | .key _ => true
    | _ => false
  foreignAta owner _ _ := owner

def Device.ClaimEnv.still (c : Cluster) (w : World) (held : TokenProgram → List (Pubkey × Nat)) :
    ClaimEnv PUnit where
  client := .still c w held
  getOnChainDeadline owner net := ((w.vaultConfigs (.vault owner)).bind fun v =>
    (w.heartbeatRecords (.heartbeat (.vault owner))).map v.deadlineAt, net)
  blockTime net := (.ok (some w.now), net)
  signOnly _ net := (.ok ⟨⟩, net)
  sendConfirm _ net := (.ok ⟨⟩, net)
  toBase58 _ := "mint"

theorem Device.ClaimEnv.still_shows (c : Cluster) (w : World) (owner : Pubkey)
    (held : TokenProgram → List (Pubkey × Nat)) : (ClaimEnv.still c w held).Shows w owner held where
  vaultConfig _ _ := rfl
  executionLog _ _ := rfl
  assetPlan _ _ := rfl
  tokenDist _ _ := rfl
  tokenAccounts _ _ := rfl
  accountInfo _ := ⟨_, fun _ => rfl⟩
  deadline v h hv hh net := by simp [ClaimEnv.still, hv, hh]
  blockTime _ := rfl

/-- Each mint that is there belongs to its token program. -/
theorem Device.ClaimEnv.still_program {held : TokenProgram → List (Pubkey × Nat)} {mint : Pubkey}
    (h : (w.mints mint).isSome = true) :
    Gives (getTokenProgramForMint (ClaimEnv.still c w held).client mint) (c.tokenProgram mint) := by
  obtain ⟨m, hm⟩ := Option.isSome_iff_exists.mp h
  refine (gives_call (a := some (.token (c.tokenProgram mint))) fun net => ?_).bind fun s => ?_
  · simp [ClaimEnv.still, Client.still, hm]
  · cases hprogram : c.tokenProgram mint <;> rfl

/-- The claim builder returns nothing for a distributed estate, and the claim says so and
sends nothing, exactly when no mint that it selects has had its distribution closed. -/
theorem claim_fixed_point_iff {env : ClaimEnv σ} {held : TokenProgram → List (Pubkey × Nat)}
    {v : VaultConfig} (h : Distributed c w owner v held) (hshows : env.Shows w owner held)
    (heir : Pubkey) (r : Run σ) :
    (env.buildClaimTransactions heir owner r = .ok [] r ∧
      env.runClaim heir owner false r = .error ClaimEnv.alreadyDistributed r) ↔
    ∀ m ∈ claimMints w owner v held,
      (w.tokenDists (.tokenDist (.vault owner) m)).isSome = true := by
  obtain ⟨programs, hprograms⟩ := hshows.gives_programs
  have hbuild := h.gives_build hshows hprograms heir
  have hnil := List.flatMap_eq_nil_iff (l := claimMints w owner v held)
    (f := fun mint => env.openings w heir owner v.hasAssetPlan (programs mint) mint)
  simp only [ClaimEnv.openings_eq_nil_iff] at hnil
  rw [← hnil]
  constructor
  · intro ⟨hempty, _⟩
    rw [hbuild r] at hempty
    exact (EStateM.Result.ok.inj hempty).1
  · intro hempty
    rw [hempty] at hbuild
    refine ⟨hbuild r, ?_⟩
    unfold ClaimEnv.runClaim
    rw [if_neg (by decide), (h.gives_checkDeadline hshows).run_bind, hbuild.run_bind, if_pos rfl]
    rfl

/-! ## The sample vault -/

/-- An instruction of a script is among its events. -/
theorem World.executed_mem_events {s : World} {i : Instruction} {cues : List Cue}
    (h : .run i ∈ cues) : ∃ moved, .executed i moved ∈ s.events c cues := by
  induction cues generalizing s with
  | nil => cases h
  | cons cue rest ih =>
      rcases List.mem_cons.mp h with rfl | hrest
      · exact ⟨_, List.mem_cons_self⟩
      · obtain ⟨moved, hmem⟩ := ih hrest
        exact ⟨moved, List.mem_cons_of_mem _ hmem⟩

namespace Sample

/-- The world after the finalize, before the only distribution is closed. -/
def paidOut : World := due.play cluster settlement.dropLast

def paidOutConfig : VaultConfig := { config with executed := true, active := false, openTokenDists := 1 }
def settledConfig : VaultConfig := { config with executed := true, active := false }

theorem paidOut_evaluates :
    due.plays cluster noCheck settlement.dropLast = true ∧
    paidOut.vaultConfigs vault = some paidOutConfig ∧
    (paidOut.tokenDists (.tokenDist vault gold)).map (·.paidMask) = some 3 ∧
    claimMints paidOut Sample.owner paidOutConfig (fun _ => []) = [gold] := by
  decide +kernel

theorem paidOut_distributed : Distributed cluster paidOut Sample.owner paidOutConfig fun _ => [] where
  reachable := due_reachable.trace
    ((due_reachable.sound.play paidOut_evaluates.1).mono fun _ _ _ hstep => hstep.1)
  config := paidOut_evaluates.2.1
  executed := rfl
  paid m hm d hd := by
    rw [paidOut_evaluates.2.2.2, List.mem_singleton] at hm
    subst hm
    have hmask := paidOut_evaluates.2.2.1
    rw [show paidOut.tokenDists (.tokenDist vault gold) = some d from hd] at hmask
    exact Option.some.inj hmask

theorem settled_claimMints : claimMints settled Sample.owner settledConfig (fun _ => []) = [gold] := by
  decide +kernel

/-- The only distribution is closed. -/
theorem settled_closed : settled.tokenDists (.tokenDist vault gold) = none := by
  obtain ⟨_, _, _, -, -, -, hnone, -⟩ :=
    beginTokenDist_ok settled_reachable.sound.regular.fresh.vacant settled_reopened
  exact hnone

theorem settled_distributed : Distributed cluster settled Sample.owner settledConfig fun _ => [] where
  reachable := settled_reachable
  config := settled_config
  executed := rfl
  paid m hm d hd := by
    rw [settled_claimMints, List.mem_singleton] at hm
    subst hm
    rw [show settled.tokenDists (.tokenDist (.vault Sample.owner) gold) = none from
      settled_closed] at hd
    cases hd

end Sample

/-- Before the close of the only distribution, the claim finds nothing that remains. -/
theorem claim_fixed_point_sample :
    (ClaimEnv.still Sample.cluster Sample.paidOut fun _ => []).runClaim Sample.keeper Sample.owner
      false ⟨⟨⟩, []⟩ = .error ClaimEnv.alreadyDistributed ⟨⟨⟩, []⟩ := by
  refine ((claim_fixed_point_iff Sample.paidOut_distributed (ClaimEnv.still_shows _ _ _ _) _ _).mpr
    fun m hm => ?_).2
  rw [Sample.paidOut_evaluates.2.2.2, List.mem_singleton] at hm
  subst hm
  obtain ⟨d, hd, -⟩ := Option.map_eq_some_iff.mp Sample.paidOut_evaluates.2.2.1
  exact Option.isSome_iff_exists.mpr ⟨d, hd⟩

/-- After the close, which leaves nothing to distribute, the claim opens the distribution of the
bequeathed mint once more, and the program lets it. -/
theorem claim_reopens : ∃ step s' moved,
    Distributed Sample.cluster Sample.settled Sample.owner Sample.settledConfig (fun _ => []) ∧
    .executed (.closeTokenDist Sample.closeTokenDist) moved ∈
      Sample.due.events Sample.cluster Sample.settlement ∧
    Trace (Step Sample.cluster) Sample.due (Sample.due.events Sample.cluster Sample.settlement)
      Sample.settled ∧
    (∀ m, Sample.settled.tokenAmounts (canonicalAta Sample.cluster Sample.vault m) = 0) ∧
    (∀ r, (ClaimEnv.still Sample.cluster Sample.settled fun _ => []).buildClaimTransactions
      Sample.keeper Sample.owner r = .ok [step] r) ∧
    .invoke (.beginTokenDist Sample.beginTokenDist) ∈ step.tx ∧
    exec Sample.cluster (.beginTokenDist Sample.beginTokenDist) Sample.settled = .ok s' := by
  have hmint : (Sample.settled.mints Sample.gold).isSome = true := by
    obtain ⟨_, _, _, -, -, hmint, -⟩ :=
      beginTokenDist_ok Sample.settled_reachable.sound.regular.fresh.vacant Sample.settled_reopened
    exact hmint
  have hplays := Sample.due_reachable.sound.play Sample.settled_plays
  obtain ⟨moved, hclosed⟩ := World.executed_mem_events (c := Sample.cluster) (s := Sample.due)
    (show .run (.closeTokenDist Sample.closeTokenDist) ∈ Sample.settlement by
      simp [Sample.settlement])
  refine ⟨(ClaimEnv.still Sample.cluster Sample.settled fun _ => []).snapshotStep Sample.keeper
      Sample.owner true Sample.gold (Sample.ata Sample.vault) .token, _, moved,
    Sample.settled_distributed, hclosed, hplays.mono fun _ _ _ hstep => hstep.1,
    Sample.settled_empty, fun r => ?_, .tail _ (.head _), Sample.settled_reopened⟩
  have hshows := ClaimEnv.still_shows Sample.cluster Sample.settled Sample.owner fun _ => []
  obtain ⟨programs, hprograms⟩ := hshows.gives_programs
  have hgold : programs Sample.gold = .token := by
    have hread := hprograms Sample.gold r
    rw [ClaimEnv.still_program hmint r] at hread
    exact (EStateM.Result.ok.inj hread).1.symm
  rw [Sample.settled_distributed.gives_build hshows hprograms Sample.keeper r,
    Sample.settled_claimMints, List.flatMap_singleton, hgold, ClaimEnv.openings,
    show Sample.settled.tokenDists (.tokenDist (.vault Sample.owner) Sample.gold) = none from
      Sample.settled_closed]
  rfl

end DeadMansVault
