-- SUMMARY: The begin of an execution against a node: the world in which a pass distributes, and what it has in common with the one before.
import DeadMansVault.Automation.Pending

/-!
# Beginnings

A pass begins the execution itself, if no one has before it. Where the program refuses that,
before the deadline or for want of the rent, the pass is over.
-/

namespace DeadMansVault.Crank

open Script World

variable {c : Cluster} {node : Node} {job : Job World} {o payer : Pubkey} {v : VaultConfig}
  {s : World}

/-! ## The world of the distribution -/

/-- The call with which a pass begins the execution of a vault. -/
def beginCall (payer vault : Pubkey) (hasPlan : Bool) : BeginExecution where
  payer := payer
  vaultConfig := vault
  heartbeatRecord := .heartbeat vault
  executionLog := .execution vault
  assetPlan := if hasPlan then some (.assetPlan vault) else none

/-- The world once the execution has begun, if it can begin and has not before. -/
def afterBegin (c : Cluster) (payer o : Pubkey) (v : VaultConfig) (s : World) : World :=
  ((exec c (.beginExecution (beginCall payer (.vault o) v.hasAssetPlan)) s).toOption).getD s

theorem afterBegin_of_exec {s' : World}
    (h : exec c (.beginExecution (beginCall payer (.vault o) v.hasAssetPlan)) s = .ok s') :
    afterBegin c payer o v s = s' := by
  unfold afterBegin
  rw [h]
  rfl

/-- It can begin, or it stays as it is. -/
theorem afterBegin_cases (c : Cluster) (payer o : Pubkey) (v : VaultConfig) (s : World) :
    exec c (.beginExecution (beginCall payer (.vault o) v.hasAssetPlan)) s =
        .ok (afterBegin c payer o v s) ∨
      (Submission.invoke (.beginExecution (beginCall payer (.vault o) v.hasAssetPlan))).lands c s =
        none ∧ afterBegin c payer o v s = s := by
  unfold afterBegin
  rw [Submission.lands]
  cases exec c (.beginExecution (beginCall payer (.vault o) v.hasAssetPlan)) s with
  | ok s' => exact .inl rfl
  | error e => exact .inr ⟨rfl, rfl⟩

/-- An execution begins once. -/
theorem afterBegin_of_log (h : (s.executionLogs (.execution (.vault o))).isSome = true) :
    afterBegin c payer o v s = s := by
  rcases afterBegin_cases c payer o v s with hexec | ⟨-, hsame⟩
  · obtain ⟨_, _, _, -, -, -, hnone, -⟩ := beginExecution_ok hexec
    have hlog : s.executionLogs (.execution (.vault o)) = none := hnone
    rw [hlog] at h
    cases h
  · exact hsame

/-- All of the vault and of the tokens is as before. -/
structure SameButLog (s s' : World) : Prop where
  vaultConfigs : s'.vaultConfigs = s.vaultConfigs
  assetPlans : s'.assetPlans = s.assetPlans
  tokenDists : s'.tokenDists = s.tokenDists
  tokenAccounts : s'.tokenAccounts = s.tokenAccounts
  tokenAmounts : s'.tokenAmounts = s.tokenAmounts
  mints : s'.mints = s.mints

theorem sameButLog_afterBegin (c : Cluster) (payer o : Pubkey) (v : VaultConfig) (s : World) :
    SameButLog s (afterBegin c payer o v s) := by
  rcases afterBegin_cases c payer o v s with hexec | ⟨-, hsame⟩
  · obtain ⟨_, _, _, -, -, -, -, -, -, -, -, -, -, heq⟩ := beginExecution_ok hexec
    rw [heq]
    exact ⟨rfl, rfl, rfl, rfl, rfl, rfl⟩
  · rw [hsame]
    exact ⟨rfl, rfl, rfl, rfl, rfl, rfl⟩

theorem afterBegin_reachable (hs : Reachable c s) : Reachable c (afterBegin c payer o v s) := by
  rcases afterBegin_cases c payer o v s with hexec | ⟨-, hsame⟩
  · exact hs.step (.executed hexec)
  · rwa [hsame]

/-- Once it has begun, the execution is under way. -/
theorem pending_afterBegin (hs : Reachable c s) (hv : s.vaultConfigs (.vault o) = some v)
    (hopen : v.executed = false)
    (hlog : ((afterBegin c payer o v s).executionLogs (.execution (.vault o))).isSome = true) :
    Pending c o v (s.estate c o).assignments (afterBegin c payer o v s) := by
  have hsame := sameButLog_afterBegin c payer o v s
  refine ⟨afterBegin_reachable hs, ⟨v, by rw [hsame.vaultConfigs, hv], hopen, rfl, rfl⟩, hlog, ?_⟩
  unfold Estate.assignments World.estate
  dsimp only
  rw [hsame.assetPlans]

/-! ## The step of a pass -/

/-- A pass begins the execution if it has to, and is over if it cannot. -/
theorem Job.OnNode.beginExecution (hjob : job.OnNode c node) (hvault : job.vault = .vault o)
    (s : World) :
    (((afterBegin c job.payer o v s).executionLogs (.execution (.vault o))).isSome = true ∧
      ∃ r, job.beginExecution v.hasAssetPlan ⟨s, []⟩ = .ok ⟨⟩ r ∧ r.stuckMints = [] ∧
        r.net = afterBegin c job.payer o v s) ∨
    ((afterBegin c job.payer o v s).executionLogs (.execution (.vault o)) = none ∧
      ∃ e r, job.beginExecution v.hasAssetPlan ⟨s, []⟩ = .error e r ∧ r.net = s) := by
  have hread : ∀ r : Run World, call (job.client.executionLog (.execution job.vault)) r =
      .ok (r.net.executionLogs (.execution (.vault o))) r := fun r => by
    rw [hjob.client, hvault]
    exact call_read rfl
  have hcall : job.optionalPlan v.hasAssetPlan =
      (beginCall job.payer (.vault o) v.hasAssetPlan).assetPlan := by
    rw [Job.optionalPlan, hvault]
    rfl
  cases hlog : s.executionLogs (.execution (.vault o)) with
  | some l =>
      have hsame : afterBegin c job.payer o v s = s := afterBegin_of_log (by rw [hlog]; rfl)
      have hfound : call (job.client.executionLog (.execution job.vault)) ⟨s, []⟩ =
          .ok (some l) ⟨s, []⟩ := hlog ▸ hread ⟨s, []⟩
      exact .inl ⟨by rw [hsame, hlog]; rfl, ⟨s, []⟩, run_bind_ok hfound, rfl, hsame.symm⟩
  | none =>
      have hmissing : call (job.client.executionLog (.execution job.vault)) ⟨s, []⟩ =
          .ok none ⟨s, []⟩ := hlog ▸ hread ⟨s, []⟩
      unfold Job.beginExecution
      rw [run_bind_ok hmissing]
      let submission : Submission :=
        .invoke (.beginExecution (beginCall job.payer (.vault o) v.hasAssetPlan))
      let rest : Routine World PUnit := do
        let _ ← fetch (job.client.executionLog (.execution job.vault))
      have hpass : (job.guard >>= fun _ => submit job.client (.invoke (.beginExecution {
            payer := job.payer
            vaultConfig := job.vault
            heartbeatRecord := .heartbeat job.vault
            executionLog := .execution job.vault
            assetPlan := job.optionalPlan v.hasAssetPlan })) >>= fun _ => rest) =
          (job.guard >>= fun _ => submit job.client submission) >>= fun _ => rest := by
        rw [bind_assoc, hcall, hvault]
        rfl
      obtain ⟨r, -, hstuck, ⟨hlands, hrun⟩ | ⟨hlands, hnet, hrun⟩⟩ := hjob.send submission ⟨s, []⟩
      · have hexec : exec c (.beginExecution (beginCall job.payer (.vault o) v.hasAssetPlan)) s =
            .ok r.net :=
          Submission.exec_of_lands (rfl : submission.instruction = _) rfl hlands
        have hbegun : afterBegin c job.payer o v s = r.net := afterBegin_of_exec hexec
        obtain ⟨_, _, _, -, -, -, -, -, -, -, -, -, -, heq⟩ := beginExecution_ok hexec
        have hsome : (r.net.executionLogs (.execution (.vault o))).isSome = true := by
          rw [heq]
          simp [beginCall]
        obtain ⟨l, hl⟩ := Option.isSome_iff_exists.mp hsome
        have hfetch : fetch (job.client.executionLog (.execution job.vault)) r = .ok l r := by
          rw [hjob.client, hvault]
          exact fetch_read (by rw [← hl]; rfl)
        refine .inl ⟨by rw [hbegun]; exact hsome, r, ?_, hstuck, hbegun.symm⟩
        exact (congrFun hpass _).trans ((run_bind_ok hrun).trans (run_bind_ok hfetch))
      · have hsame : afterBegin c job.payer o v s = s := by
          rcases afterBegin_cases c job.payer o v s with hexec | ⟨-, hsame⟩
          · rw [Submission.lands, hexec] at hlands
            cases hlands
          · exact hsame
        exact .inr ⟨by rw [hsame, hlog], _, r, (congrFun hpass _).trans (run_bind_error hrun), hnet⟩

end DeadMansVault.Crank
