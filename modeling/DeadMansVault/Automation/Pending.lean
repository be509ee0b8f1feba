-- SUMMARY: An execution that is under way, and what the transactions of a pass do to it on the chain.
import DeadMansVault.Automation.Selection
import DeadMansVault.Estate.Marks

/-!
# Executions under way

Between `begin_execution` and `finalize_execution` a pass pays bequests and shares. Whatever
it submits, what lands sets no other bits than those of its own payments.
-/

namespace DeadMansVault.Crank

open Script World

variable {c : Cluster} {node : Node} {o : Pubkey} {v : VaultConfig} {as : List AssetAssignment}
  {w w' : World}

/-! ## Executions -/

/-- The vault of `o` is being executed, with the beneficiaries of `v` and these assignments. -/
structure Pending (c : Cluster) (o : Pubkey) (v : VaultConfig) (as : List AssetAssignment)
    (w : World) : Prop where
  reachable : Reachable c w
  config : ∃ v', w.vaultConfigs (.vault o) = some v' ∧ v'.executed = false ∧
    v'.beneficiaries = v.beneficiaries ∧ v'.hasAssetPlan = v.hasAssetPlan
  log : (w.executionLogs (.execution (.vault o))).isSome = true
  assignments : (w.estate c o).assignments = as

namespace Pending

theorem lawful (h : Pending c o v as w) : (w.estate c o).Lawful c o := h.reachable.lawful o

theorem due (h : Pending c o v as w) : (w.estate c o).Due := by
  obtain ⟨l, hl⟩ := Option.isSome_iff_exists.mp h.log
  exact h.lawful.due hl

theorem count (h : Pending c o v as w) : v.beneficiaries.length ≤ 32 := by
  obtain ⟨v', hv', -, hbenefs, -⟩ := h.config
  rw [← hbenefs]
  exact (h.lawful.accepted v' hv').1.count.2.trans (show maxBeneficiaries ≤ 32 by decide)

/-- A plan goes with the flag of the config. -/
theorem plan_iff (h : Pending c o v as w) :
    (w.assetPlans (.assetPlan (.vault o))).isSome = true ↔ v.hasAssetPlan = true := by
  obtain ⟨v', hv', -, -, hhas⟩ := h.config
  rw [← hhas]
  refine h.lawful.planned.trans ⟨?_, fun hhas' => ⟨v', hv', hhas'⟩⟩
  rintro ⟨v'', hv'', hhas'⟩
  obtain rfl := Option.some.inj (hv'.symm.trans hv'')
  exact hhas'

theorem plan_assignments (h : Pending c o v as w) {p : AssetPlan}
    (hp : w.assetPlans (.assetPlan (.vault o)) = some p) :
    p.assignments = as ∧ (w.estate c o).planBits = p.paidMask := by
  have hassign := h.assignments
  simp only [Estate.assignments, Estate.planBits, World.estate, hp, Option.elim_some] at hassign ⊢
  exact ⟨hassign, trivial⟩

/-- What the accounts of the vault say to an instruction. -/
theorem executing (h : Pending c o v as w) :
    ∃ v' l, Executing w (.vault o) v' l ∧ l.vault = .vault o ∧ v'.hasAssetPlan = v.hasAssetPlan ∧
      PlanLoads w (.vault o) v' ∧
      w.registeredPlan (.vault o) v' = w.assetPlans (.assetPlan (.vault o)) := by
  obtain ⟨v', hv', -, -, hhas⟩ := h.config
  obtain ⟨l, hl⟩ := Option.isSome_iff_exists.mp h.log
  have howner : v'.owner = o := (h.lawful.accepted v' hv').2
  refine ⟨v', l, ⟨hv', hl, by rw [howner]⟩, (h.lawful.logged l hl).1, hhas, fun hplan => ?_, ?_⟩
  · obtain ⟨p, hp⟩ := Option.isSome_iff_exists.mp (h.plan_iff.mpr (hhas ▸ hplan))
    exact ⟨p, hp, (h.lawful.plan p hp).1⟩
  · unfold World.registeredPlan
    split
    · rfl
    next hplan =>
      refine (Option.not_isSome_iff_eq_none.mp fun hsome => hplan ?_).symm
      exact hhas.trans (h.plan_iff.mp hsome)

/-- The plan names the mints of the assignments. -/
theorem planned_iff (h : Pending c o v as w) (mint : Pubkey) :
    (w.assetPlans (.assetPlan (.vault o))).elim false (·.assignments.any (·.mint = mint)) = true ↔
      ∃ a ∈ as, a.mint = mint := by
  cases hp : w.assetPlans (.assetPlan (.vault o)) with
  | none =>
      have hassign := h.assignments
      simp only [Estate.assignments, World.estate, hp, Option.elim_none] at hassign
      simp [← hassign]
  | some p => simp [← (h.plan_assignments hp).1]

theorem createAta (h : Pending c o v as w) (account : Pubkey × Pubkey) :
    Pending c o v as (w.createAta c account) := by
  have hreach := h.reachable.step
    (.environment (createAta_environment h.reachable.sound.regular account))
  obtain ⟨t, ht⟩ := createAta_eq (c := c) w account
  rw [ht] at hreach ⊢
  exact ⟨hreach, h.config, h.log, h.assignments⟩

theorem createAtas (h : Pending c o v as w) (accounts : List (Pubkey × Pubkey)) :
    Pending c o v as (w.createAtas c accounts) := by
  induction accounts generalizing w with
  | nil => exact h
  | cons account rest ih => exact ih (h.createAta account)

/-- What an instruction of a distribution does is a run of the estate. -/
theorem executed (h : Pending c o v as w) {i : Instruction} (hexec : exec c i w = .ok w')
    (hi : i.distributes = true) (ho : i.vaultKey = .vault o) :
    Pending c o v as w' ∧ ∃ acts, Trace (Estate.Step c o) (w.estate c o) acts (w'.estate c o) ∧
      (∀ a ∈ acts, a.deed.distributes = true) ∧ i.Unfolds (acts.map (·.deed)) := by
  obtain ⟨acts, hacts, hunfolds⟩ := exec_performs h.reachable.sound.regular ho hexec
  have hrun : Trace (Estate.Step c o) (w.estate c o) acts (w'.estate c o) := hacts.run
  have hdeeds : ∀ a ∈ acts, a.deed.distributes = true := fun a ha =>
    hunfolds.distributes hi a.deed (List.mem_map_of_mem ha)
  have hproceeds := h.due.proceeds_run h.lawful hrun fun a ha =>
    Estate.Step.distributes_ne_close (hdeeds a ha)
  obtain ⟨v₀, hv₀, hexec₀, hbenefs, hhas⟩ := h.config
  have hunexecuted : ∀ u, (w'.estate c o).config = some u → u.executed = false := by
    refine (hrun.restrict hdeeds).preserves
      (P := fun F : Estate => ∀ u, F.config = some u → u.executed = false)
      (fun F a F' hF hstep => hstep.1.unexecuted hF fun payer hdeed => ?_) fun u hu => ?_
    · obtain rfl := Option.some.inj (hv₀.symm.trans hu)
      exact hexec₀
    · have hdist := hstep.2
      rw [hdeed] at hdist
      cases hdist
  obtain ⟨v₁, hv₁, heq, -⟩ := hproceeds.config v₀ hv₀
  obtain ⟨l, hl⟩ := Option.isSome_iff_exists.mp h.log
  obtain ⟨l', hl', -⟩ := hproceeds.log l hl
  refine ⟨⟨h.reachable.step (.executed hexec), ⟨v₁, hv₁, hunexecuted v₁ hv₁, ?_, ?_⟩,
    Option.isSome_iff_exists.mpr ⟨l', hl'⟩, hproceeds.assignments_eq.trans h.assignments⟩,
    acts, hrun, hdeeds, hunfolds⟩
  · rw [heq]
    exact hbenefs
  · rw [heq]
    exact hhas

/-- The open distributions stay open. -/
theorem keeps_open (h : Pending c o v as w) {i : Instruction} (hexec : exec c i w = .ok w')
    (hi : i.distributes = true) (ho : i.vaultKey = .vault o) {m : Pubkey}
    (hm : (w.tokenDists (.tokenDist (.vault o) m)).isSome = true) :
    (w'.tokenDists (.tokenDist (.vault o) m)).isSome = true := by
  obtain ⟨-, acts, hrun, hdeeds, -⟩ := h.executed hexec hi ho
  exact (hrun.restrict hdeeds).preserves (P := fun F : Estate => (F.dists m).isSome = true)
    (fun F a F' hF hstep => hstep.1.keeps_open hstep.2 hF) hm

end Pending

/-- The plan that a pass reads. -/
theorem Pending.fetchPlan {job : Job World} (hclient : job.client = node.client c)
    (hvault : job.vault = .vault o) {r : Run World} (h : Pending c o v as r.net) :
    job.fetchPlan v.hasAssetPlan r = .ok (r.net.assetPlans (.assetPlan (.vault o))) r := by
  unfold Job.fetchPlan
  rw [hclient, hvault]
  split
  next hplan =>
    obtain ⟨p, hp⟩ := Option.isSome_iff_exists.mp (h.plan_iff.mpr hplan)
    rw [hp]
    exact run_bind_ok (fetch_read (by rw [← hp]; rfl))
  next hplan =>
    have hnone : r.net.assetPlans (.assetPlan (.vault o)) = none :=
      Option.not_isSome_iff_eq_none.mp fun hsome => hplan (h.plan_iff.mp hsome)
    rw [hnone]
    rfl

/-! ## Bits -/

/-- The assignment that an instruction pays. -/
def Pays (i : Instruction) (a : AssetAssignment) (j : Nat) : Prop :=
  match i with
  | .executeSpecificAsset ctx j' => j = j' ∧ a.mint = ctx.mint
  | .executeSpecificSol _ j' => j = j' ∧ a.mint = .default
  | _ => False

/-- An instruction of a distribution sets no bits of the plan but those that it pays. -/
theorem Pending.planBits (h : Pending c o v as w) {i : Instruction} (hexec : exec c i w = .ok w')
    (hi : i.distributes = true) (ho : i.vaultKey = .vault o) {j : Nat}
    (hbit : Bitmask.test (w'.estate c o).planBits j = true) :
    Bitmask.test (w.estate c o).planBits j = true ∨ ∃ a, as[j]? = some a ∧ Pays i a j := by
  obtain ⟨-, acts, hrun, hdeeds, hunfolds⟩ := h.executed hexec hi ho
  refine ((Estate.marked_run h.lawful h.due hrun hdeeds).1 j hbit).imp_right ?_
  rintro ⟨x, hx, a, ha, hdeed⟩
  rw [h.assignments] at hx
  refine ⟨x, hx, ?_⟩
  have hmem : a.deed ∈ acts.map (·.deed) := List.mem_map_of_mem ha
  cases i with
  | executeSpecificAsset ctx k =>
      have hone := hunfolds
      simp only [Instruction.Unfolds] at hone
      rw [hone, List.mem_singleton] at hmem
      rw [hmem] at hdeed
      rcases hdeed with hdeed | ⟨hdeed, -⟩
      · obtain ⟨hm, hk⟩ := Deed.specificAsset.inj hdeed
        exact ⟨hk.symm, hm.symm⟩
      · cases hdeed
  | executeSpecificSol ctx k =>
      have hone := hunfolds
      simp only [Instruction.Unfolds] at hone
      rw [hone, List.mem_singleton] at hmem
      rw [hmem] at hdeed
      rcases hdeed with hdeed | ⟨hdeed, hm⟩
      · cases hdeed
      · exact ⟨(Deed.specificSol.inj hdeed).symm, hm⟩
  | executeSolShares ctx part =>
      obtain ⟨k, hk⟩ := hunfolds a.deed hmem
      rw [hk] at hdeed
      rcases hdeed with hdeed | ⟨hdeed, -⟩ <;> cases hdeed
  | beginExecution | beginTokenDist =>
      have hone := hunfolds
      simp only [Instruction.Unfolds] at hone
      rw [hone, List.mem_singleton] at hmem
      rw [hmem] at hdeed
      rcases hdeed with hdeed | ⟨hdeed, -⟩ <;> cases hdeed
  | _ => cases hi

/-- The SOL shares set no bits but those of their indices. -/
theorem solShares_marked {ctx : ExecuteSolShares} {part : List Nat}
    (ho : ctx.vaultConfig = .vault o)
    (hexec : exec c (.executeSolShares ctx part) w = .ok w') {i : Nat}
    (hbit : Bitmask.test (w'.estate c o).shareBits i = true) :
    Bitmask.test (w.estate c o).shareBits i = true ∨ i ∈ part := by
  obtain ⟨v, l, -, -, -, hturns⟩ := executeSolShares_ok hexec
  have hmem : ∀ entry ∈ part.zip ctx.remainingAccounts, entry.1 ∈ part :=
    fun entry hentry => (List.of_mem_zip hentry).1
  refine (hturns.restrict hmem).preserves
    (P := fun t : World => ∀ i, Bitmask.test (t.estate c o).shareBits i = true →
      Bitmask.test (w.estate c o).shareBits i = true ∨ i ∈ part)
    (fun t entry t' ht hstep i hbit => ?_) (fun i h => .inl h) i hbit
  obtain ⟨b, l', -, hl', hturn⟩ := paySolShare_ok hstep.1
  rw [ho] at hl'
  rcases hturn with ⟨-, rfl⟩ | ⟨-, -, -, total, count, rfl⟩
  · exact ht i hbit
  · by_cases hi : i = entry.1
    · exact .inr (hi ▸ hstep.2)
    · refine ht i ?_
      simp only [Estate.shareBits, World.estate, ho, putExecutionLog_executionLogs,
        Function.update_self, Option.elim_some, Bitmask.test_mark_of_ne hi] at hbit
      simpa [Estate.shareBits, World.estate, hl'] using hbit

/-! ## Unpaid executions -/

/-- A bit of one of the two masks is not set. -/
def Unpaid (c : Cluster) (o : Pubkey) (v : VaultConfig) (as : List AssetAssignment) (w : World) :
    Prop :=
  (∃ i < v.beneficiaries.length, Bitmask.test (w.estate c o).shareBits i = false) ∨
    ∃ j < as.length, Bitmask.test (w.estate c o).planBits j = false

/-- Both masks are full. -/
structure MasksFull (o : Pubkey) (v : VaultConfig) (w : World) : Prop where
  sol : ∃ l, w.executionLogs (.execution (.vault o)) = some l ∧
    l.solPaidMask = fullMaskU32 v.beneficiaries.length
  plan : ∀ p, w.assetPlans (.assetPlan (.vault o)) = some p →
    p.paidMask = fullMaskU64 p.assignments.length

/-- The vault is executed. -/
def Executed (o : Pubkey) (w : World) : Prop :=
  ∃ v, w.vaultConfigs (.vault o) = some v ∧ v.executed = true

theorem Pending.not_executed (h : Pending c o v as w) : ¬ Executed o w := by
  rintro ⟨u, hu, hexecuted⟩
  obtain ⟨v', hv', hopen, -⟩ := h.config
  obtain rfl := Option.some.inj (hu.symm.trans hv')
  exact Bool.false_ne_true (hopen.symm.trans hexecuted)

/-- The vault is not executed, and something is unpaid. -/
def Unfinished (o : Pubkey) (v : VaultConfig) (w : World) : Prop :=
  ¬ MasksFull o v w ∧ ¬ Executed o w

theorem Unpaid.unfinished (h : Unpaid c o v as w) (hpending : Pending c o v as w) :
    Unfinished o v w := by
  refine ⟨?_, hpending.not_executed⟩
  rintro ⟨⟨l, hl, hsol⟩, hplan⟩
  rcases h with ⟨i, hi, hclear⟩ | ⟨j, hj, hclear⟩
  · simp only [Estate.shareBits, World.estate, hl, Option.elim_some] at hclear
    exact Bool.false_ne_true (hclear.symm.trans (Bitmask.test_of_eq_full hpending.count hsol hi))
  · cases hp : w.assetPlans (.assetPlan (.vault o)) with
    | none =>
        have hassign := hpending.assignments
        simp only [Estate.assignments, World.estate, hp, Option.elim_none] at hassign
        rw [← hassign] at hj
        cases hj
    | some p =>
        obtain ⟨hassign, hbits⟩ := hpending.plan_assignments hp
        have hlen : p.assignments.length ≤ 64 := (hpending.lawful.plan p hp).2
        rw [hbits] at hclear
        rw [← hassign] at hj
        exact Bool.false_ne_true
          (hclear.symm.trans (Bitmask.test_of_eq_full hlen (hplan p hp) hj))

end DeadMansVault.Crank
