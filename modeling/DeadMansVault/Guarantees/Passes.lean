-- SUMMARY: What a pass of the server or of the keeper selects, and when it executes the vault, where nothing fails.
import DeadMansVault.Automation.Completeness

/-!
# Guarantees of a pass

The node answers every read from the chain, and lands what the program accepts. On it, the pass
of either crank is followed from its selection of mints to the finalize.
-/

namespace DeadMansVault

open Crank Script World

variable {c : Cluster} {node : Node} {o payer : Pubkey} {v : VaultConfig} {s : World}

/-- The selection keeps every mint of the plan that it can find, holds at most sixteen mints
    unless the plan alone has more, and leaves out none for one of a smaller balance. -/
theorem collected_mints (node : Node) {expire : Routine World PUnit} {r : Run World}
    (hexpire : expire r = .ok ⟨⟩ r) (vault : Pubkey) (plan : Option AssetPlan) :
    ∃ mints, collectMints (node.client c) expire vault plan r = .ok mints r ∧
      Selected (node.holding r.net vault) (Planned plan)
        (fun m => (node.ownerOf c r.net m).isSome) mints :=
  ⟨_, collectMints_onNode hexpire vault plan, node.selection_selected r.net vault plan⟩

/-- A pass ends with the vault executed if and only if the execution has begun, every mint that
    it selects could be opened, and the masks are full at its end. -/
theorem passes_execute_iff (node : Node) (payer : Pubkey) (hs : Reachable c s)
    (hv : s.vaultConfigs (.vault o) = some v) (hopen : v.executed = false)
    (hsign : payer.canSign = true) :
    (∀ r, final (crankVault (node.client c) payer (.vault o) v permitted ⟨s, []⟩) = r →
      (Executed o r.net ↔ Crankable c node payer o v s ∧ MasksFull o v r.net)) ∧
    ∀ hb r, s.heartbeatRecords (.heartbeat (.vault o)) = some hb →
      final (runExecutorInner (node.client c) payer (.vault o) permitted ⟨s, []⟩) = r →
      (Executed o r.net ↔
        Timely node v hb s ∧ Crankable c node payer o v s ∧ MasksFull o v r.net) :=
  ⟨fun _ hr => crankVault_executes_iff hs hv hopen hsign hr,
    fun _ _ hh hr => runExecutorInner_executes_iff hs hv hopen hh hsign hr⟩

namespace Sample

/-- A node that lists the associated accounts of the one mint. -/
def quietNode : Node where
  now s := s.now
  accounts _ owner _ := [ata owner]
  stranger _ _ := none
  refusal _ := { name := "SendTransactionError", message := "custom program error" }
  operational _ := by decide +kernel
  unrevoked _ := by decide +kernel
  onCurve _ := true
  foreignAta _ _ n := .key n
  vacant _ _ _ _ := rfl
  foreign _ _ _ _ := Pubkey.noConfusion

/-- What a pass finds once the execution has begun. -/
theorem begun_selection :
    quietNode.selected cluster owner begun = [(gold, .token .token)] ∧
    (begun.executionLogs (.execution vault)).isSome = true ∧
    (begun.mints gold).isSome = true ∧ 0 < begun.tokenAmounts (canonicalAta cluster vault gold) ∧
    openingRent cluster vault begun [(gold, .token .token)] ≤ begun.lamports keeper := by
  decide +kernel

theorem due_afterBegin : afterBegin cluster keeper owner config due = begun :=
  afterBegin_of_exec due_begun

theorem begun_config : begun.vaultConfigs vault = some config := by
  decide +kernel

theorem due_timely : Timely quietNode config heartbeat due := by
  obtain hnow : due.now = 691_200 := by decide +kernel
  exact ⟨by decide, by rw [show quietNode.now due = due.now from rfl, hnow]; decide⟩

theorem due_crankable : Crankable cluster quietNode keeper owner config due := by
  obtain ⟨hselected, hlog, hmint, hheld, hrent⟩ := begun_selection
  refine ⟨due_afterBegin ▸ hlog, ?_⟩
  rw [due_afterBegin, Unhindered, hselected]
  refine ⟨fun entry hentry => ?_, hrent⟩
  obtain rfl := List.mem_singleton.mp (List.mem_of_mem_filter hentry)
  exact ⟨rfl, hmint, .inl hheld⟩

theorem due_tokenAccounts {k : Pubkey} {account : TokenAccount}
    (h : due.tokenAccounts k = some account) :
    (k = ata vault ∧ account = ⟨some .token, gold, vault⟩) ∨
      (k = ata alice ∧ account = ⟨some .token, gold, alice⟩) ∨
      (k = ata bob ∧ account = ⟨some .token, gold, bob⟩) := by
  have hgenesis := (Reachable.initial (Genesis.initial (c := cluster) genesis_consistent)).sound
  have hlisted := hgenesis.play_tokenAccounts due_evaluates.1.2 h
  simp only [Genesis.world, Option.map_eq_some_iff] at hlisted
  obtain ⟨entry, hfind, rfl⟩ := hlisted
  have hkey : entry.1 = k := by simpa using List.find?_some hfind
  subst hkey
  have hmem := List.mem_of_find?_eq_some hfind
  simp only [genesis, List.mem_cons, List.not_mem_nil, or_false] at hmem
  rcases hmem with rfl | rfl | rfl
  · exact .inl ⟨rfl, rfl⟩
  · exact .inr (.inl ⟨rfl, rfl⟩)
  · exact .inr (.inr ⟨rfl, rfl⟩)

theorem due_genuine : Genuine cluster due := by
  intro k x program hx hprogram
  rcases due_tokenAccounts hx with ⟨-, rfl⟩ | ⟨-, rfl⟩ | ⟨-, rfl⟩ <;>
    exact (Option.some.inj hprogram).symm

theorem due_mints : due.mints = genesis.world.mints :=
  (Reachable.initial (Genesis.initial (c := cluster) genesis_consistent)).sound.play_mints
    due_evaluates.1.2

theorem due_serves :
    Serves cluster quietNode owner config (due.estate cluster owner).assignments due := by
  obtain ⟨hmint, hnone, hata⟩ : (due.mints gold).isSome = true ∧
      due.tokenDists (.tokenDist vault gold) = none ∧
      due.tokenAccounts (ata alice) = some ⟨some .token, gold, alice⟩ := by
    decide +kernel
  have hassign : (due.estate cluster owner).assignments = assignments := due_plan.symm
  have hgold : ∀ a ∈ assignments, a.mint ≠ .default → a = ⟨gold, 30, 0, false⟩ := by
    intro a ha hm
    rcases List.mem_cons.mp ha with rfl | ha
    · exact absurd rfl hm
    · exact List.mem_singleton.mp ha
  rw [hassign]
  refine ⟨fun a ha hm => ?_, fun _ _ _ => ?_, fun a ha hm hopen => ?_, fun _ _ _ _ _ => rfl,
    fun a ha hm b hb x hx => ?_⟩
  · obtain rfl := hgold a ha hm
    exact hmint
  · rw [due_mints]
    simp [Genesis.world, genesis, gold, silver]
  · obtain rfl := hgold a ha hm
    rw [DistOpen, show due.tokenDists (.tokenDist (.vault owner) gold) = none from hnone] at hopen
    cases hopen
  · obtain rfl := hgold a ha hm
    obtain rfl : ⟨alice, 6_000⟩ = b := Option.some.inj hb
    exact Option.some.inj (hx.symm.trans hata)

theorem due_clear :
    ¬ ((afterBegin cluster keeper owner config due).estate cluster owner).Obstructed cluster
      owner := by
  rw [due_afterBegin]
  exact not_obstructed begun_config fun b hb => by
    simp only [config, beneficiaries, List.mem_cons, List.not_mem_nil, or_false] at hb
    rcases hb with rfl | rfl <;> decide

/-- The pass of the keeper over the due vault. -/
def keeperPass : Run World :=
  final (crankVault (quietNode.client cluster) keeper vault config permitted ⟨due, []⟩)

/-- The pass of the server. -/
def serverPass : Run World :=
  final (runExecutorInner (quietNode.client cluster) keeper vault permitted ⟨due, []⟩)

end Sample

/-- What a pass over the sample vault collects. -/
theorem collected_mints_sample :
    ∃ mints, collectMints (Sample.quietNode.client Sample.cluster) (pure ⟨⟩) Sample.vault
        (Sample.begun.assetPlans (.assetPlan Sample.vault)) ⟨Sample.begun, []⟩ =
          .ok mints ⟨Sample.begun, []⟩ ∧
      Selected (Sample.quietNode.holding Sample.begun Sample.vault)
        (Planned (Sample.begun.assetPlans (.assetPlan Sample.vault)))
        (fun m => (Sample.quietNode.ownerOf Sample.cluster Sample.begun m).isSome) mints :=
  collected_mints Sample.quietNode rfl _ _

/-- After the passes over the sample vault the masks are full. -/
theorem passes_execute_iff_sample :
    MasksFull Sample.owner Sample.config Sample.keeperPass.net ∧
    MasksFull Sample.owner Sample.config Sample.serverPass.net := by
  have hboth := passes_execute_iff Sample.quietNode Sample.keeper Sample.due_reachable
    Sample.due_config rfl rfl
  have hkeeper : Executed Sample.owner Sample.keeperPass.net :=
    (crankVault_completes_iff Sample.due_reachable Sample.due_config rfl rfl Sample.due_genuine
      Sample.due_serves rfl).mpr ⟨Sample.due_crankable, Sample.due_clear⟩
  have hserver : Executed Sample.owner Sample.serverPass.net :=
    (runExecutorInner_completes_iff Sample.due_reachable Sample.due_config rfl Sample.due_heartbeat
      rfl Sample.due_genuine Sample.due_serves rfl).mpr
        ⟨Sample.due_timely, Sample.due_crankable, Sample.due_clear⟩
  exact ⟨((hboth.1 _ rfl).mp hkeeper).2, ((hboth.2 _ _ Sample.due_heartbeat rfl).mp hserver).2.2⟩

end DeadMansVault
