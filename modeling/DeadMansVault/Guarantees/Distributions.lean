-- SUMMARY: The lifecycle of the program's accounts and the counter of open distributions, over all runs.
import DeadMansVault.Guarantees.Events
import DeadMansVault.Program.Scenario

/-!
# Accounts and distributions
-/

namespace DeadMansVault

open World

variable {c : Cluster} {o : Pubkey} {s s' : World}

/-- The mints for which a distribution of the vault of `o` is open. -/
def World.openDists (s : World) (o : Pubkey) : Set Pubkey :=
  {m | (s.tokenDists (.tokenDist (.vault o) m)).isSome = true}

/-- The event opens a distribution of the vault of `o` although its counter is at
    the largest `u16`. -/
def Event.Overflows (o : Pubkey) (s : World) (e : Event) : Prop :=
  ∃ ctx moved v, e = .executed (.beginTokenDist ctx) moved ∧ ctx.vaultConfig = .vault o ∧
    s.vaultConfigs (.vault o) = some v ∧ u16Max ≤ v.openTokenDists

/-- A single answer to an event that does not overflow the counter does not either. -/
theorem Answers.not_overflows {e : Event} {a : Act} (h : Answers c o e [a])
    (hfit : ¬ e.Overflows o s) : ¬ (s.estate c o).Overflows a := by
  rintro ⟨m, v, hdeed, hv, hfull⟩
  obtain ⟨ctx, moved, rfl, ho, -⟩ := h.beginDist (List.mem_singleton_self a) hdeed
  exact hfit ⟨ctx, moved, v, rfl, ho, hv, hfull⟩

theorem not_overflows_of_batched {E : Estate} {a : Act} (h : a.deed.batched = true) :
    ¬ E.Overflows a := by
  rintro ⟨m, _, hdeed, -⟩
  simp [hdeed, Deed.batched] at h

/-- The count stays exact through every event that does not overflow it. -/
theorem tallied_step {e : Event} (hs : s.Sound c) (hlaw : (s.estate c o).Lawful c o)
    (hT : (s.estate c o).Tallied) (h : Step c s e s') (hfit : ¬ e.Overflows o s) :
    (s'.estate c o).Tallied := by
  obtain ⟨acts, hacts, hans⟩ := step_refines hs h o
  have hfits := hans.sides (Q := fun E a _ => ¬ E.Overflows a) hacts
    (fun a hone => (hone ▸ hans).not_overflows hfit) fun _ _ _ => not_overflows_of_batched
  have hrun := hfits.preserves (P := fun E => E.Lawful c o ∧ E.Tallied)
    (fun E a E' ⟨hE, hT⟩ hstep => ⟨hE.step hstep.1, hT.step hE hstep.1 hstep.2⟩) ⟨hlaw, hT⟩
  exact hrun.2

/-- While fewer than 65536 distributions are open, the counter does not overflow. -/
theorem not_overflows {e : Event} (hs : s.Sound c) (hT : (s.estate c o).Tallied)
    (h : Step c s e s') (hfew : (s'.openDists o).encard < 65536) : ¬ e.Overflows o s := by
  rintro ⟨ctx, moved, v, rfl, ho, hv, hfull⟩
  obtain ⟨acts, hacts, -, hshape⟩ := step_refines hs h o
  simp only [show (Instruction.beginTokenDist ctx).vaultKey = .vault o from ho, if_true] at hshape
  obtain ⟨a, rfl, hdeed⟩ := List.map_eq_singleton_iff.mp hshape
  obtain ⟨_, hstep, hnil⟩ := Trace.cons_iff.mp hacts
  obtain rfl := Trace.nil_iff.mp hnil
  have hgrow := hstep.openDists_beginDist hdeed
  rw [hT.count v hv] at hgrow
  change (s'.estate c o).openDists.encard < 65536 at hfew
  rw [hgrow] at hfew
  have hlt : v.openTokenDists + 1 < 65536 := by exact_mod_cast hfew
  unfold u16Max at hfull
  omega

/-- Without an overflow the count is exact at the end of every run. -/
theorem tallied_trace {s₀ : World} {es : List Event} (hinit : Initial c s₀)
    (hrun : Trace (fun s e s' => Step c s e s' ∧ ¬ e.Overflows o s) s₀ es s) :
    s.Sound c ∧ (s.estate c o).Lawful c o ∧ (s.estate c o).Tallied := by
  obtain ⟨hc, hh, hp, hl, hd⟩ := hinit.estate o
  refine hrun.preserves
    (P := fun s => s.Sound c ∧ (s.estate c o).Lawful c o ∧ (s.estate c o).Tallied) ?_
    ⟨(Reachable.initial hinit).sound, .empty hc hh hp hl hd, .empty hc hd⟩
  rintro s e s' ⟨hs, hlaw, hT⟩ ⟨hstep, hfit⟩
  obtain ⟨acts, hacts, -⟩ := step_refines hs hstep o
  exact ⟨hs.step hstep, hlaw.run hacts, tallied_step hs hlaw hT hstep hfit⟩

/-- A history in which the distributions stay few never overflows the counter. -/
theorem few_not_overflows {s₀ : World} {es : List Event} (hinit : Initial c s₀)
    (hrun : Trace (fun s e s' => Step c s e s' ∧ (s'.openDists o).encard < 65536) s₀ es s) :
    Trace (fun s e s' => Step c s e s' ∧ ¬ e.Overflows o s) s₀ es s := by
  obtain ⟨hc, hh, hp, hl, hd⟩ := hinit.estate o
  have hstrong := hrun.strengthen
    (P := fun s => s.Sound c ∧ (s.estate c o).Lawful c o ∧ (s.estate c o).Tallied)
    (by
      rintro s e s' ⟨hs, hlaw, hT⟩ ⟨hstep, hfew⟩
      obtain ⟨acts, hacts, -⟩ := step_refines hs hstep o
      exact ⟨hs.step hstep, hlaw.run hacts,
        tallied_step hs hlaw hT hstep (not_overflows hs hT hstep hfew)⟩)
    ⟨(Reachable.initial hinit).sound, .empty hc hh hp hl hd, .empty hc hd⟩
  exact hstrong.mono fun s e s' ⟨⟨hstep, hfew⟩, ⟨hs, _, hT⟩, _⟩ =>
    ⟨hstep, not_overflows hs hT hstep hfew⟩

/-! ## Scripts that open few distributions -/

/-- The step opens no distribution while the counter of its vault is at the largest `u16`. -/
def opensBelow : World → Event → World → Bool
  | s, .executed (.beginTokenDist ctx) _, _ =>
    (s.vaultConfigs ctx.vaultConfig).all fun v => decide (v.openTokenDists < u16Max)
  | _, _, _ => true

theorem opensBelow_not_overflows {e : Event} (h : opensBelow s e s' = true) : ¬ e.Overflows o s := by
  rintro ⟨ctx, moved, v, rfl, ho, hv, hfull⟩
  simp only [opensBelow, ho, hv, Option.all_some, decide_eq_true_eq] at h
  omega

/-- A script whose steps all pass is a run without an overflow. -/
theorem Genesis.play_below {g : Genesis} {cues : List Cue} (hg : g.consistent = true)
    (h : g.world.plays c opensBelow cues = true) (o : Pubkey) :
    Trace (fun s e s' => Step c s e s' ∧ ¬ e.Overflows o s) g.world (g.world.events c cues)
      (g.world.play c cues) :=
  ((Reachable.initial (initial hg)).sound.play h).mono fun _ _ _ ⟨hstep, hbelow⟩ =>
    ⟨hstep, opensBelow_not_overflows hbelow⟩

/-- Up to the shares of the only mint, and what evaluation says of it. -/
def Sample.opening : List Cue := setup ++ .run (.beginExecution beginExecution) :: payouts

theorem Sample.opening_evaluates :
    genesis.world.plays cluster opensBelow opening = true ∧
    (genesis.world.play cluster opening).vaultConfigs vault =
      some { config with openTokenDists := 1 } := by
  decide +kernel

/-! ## The lifecycle of the accounts -/

/-- What the accounts of the owner `o` say about each other. -/
structure World.Lifecycle (s : World) (o : Pubkey) : Prop where
  pair : (s.vaultConfigs (.vault o)).isSome = true ↔
    (s.heartbeatRecords (.heartbeat (.vault o))).isSome = true
  planned : (s.assetPlans (.assetPlan (.vault o))).isSome = true ↔
    ∃ v, s.vaultConfigs (.vault o) = some v ∧ v.hasAssetPlan = true
  started : ∀ l, s.executionLogs (.execution (.vault o)) = some l →
    ∃ v h, s.vaultConfigs (.vault o) = some v ∧
      s.heartbeatRecords (.heartbeat (.vault o)) = some h ∧
      h.lastHeartbeat + v.heartbeatInterval + v.gracePeriod ≤ l.startedAt ∧ l.startedAt ≤ s.now
  executed : ∀ v, s.vaultConfigs (.vault o) = some v →
    ((v.executed = true ↔ ∃ l, s.executionLogs (.execution (.vault o)) = some l ∧
      l.completed = true) ∧ (v.executed = true ↔ v.active = false))
  /-- The state that `close_revoked_vault` asks for. -/
  revoked : ∀ v, s.vaultConfigs (.vault o) = some v → ¬ (v.active = false ∧ v.executed = false)
  beneficiaries : ∀ v, s.vaultConfigs (.vault o) = some v →
    1 ≤ v.beneficiaries.length ∧ v.beneficiaries.length ≤ 20 ∧
      (v.beneficiaries.map (·.shareBps)).sum = 10000
  indices : ∀ v p, s.vaultConfigs (.vault o) = some v →
    s.assetPlans (.assetPlan (.vault o)) = some p →
    ∀ a ∈ p.assignments, a.beneficiaryIndex < v.beneficiaries.length
  solMask : ∀ v l, s.vaultConfigs (.vault o) = some v →
    s.executionLogs (.execution (.vault o)) = some l →
    Bitmask.Sub l.solPaidMask (fullMaskU32 v.beneficiaries.length)
  planMask : ∀ p, s.assetPlans (.assetPlan (.vault o)) = some p →
    Bitmask.Sub p.paidMask (fullMaskU64 p.assignments.length)
  distMask : ∀ v m d, s.vaultConfigs (.vault o) = some v →
    s.tokenDists (.tokenDist (.vault o) m) = some d →
    Bitmask.Sub d.paidMask (fullMaskU32 v.beneficiaries.length)
  paid : ∀ p, s.assetPlans (.assetPlan (.vault o)) = some p → p.paidMask ≠ 0 →
    (s.executionLogs (.execution (.vault o))).isSome = true

theorem Estate.Lawful.lifecycle (hE : (s.estate c o).Lawful c o) (hT : (s.estate c o).Tallied) :
    s.Lifecycle o where
  pair := by
    have hpair := hE.pair
    exact Bool.eq_iff_iff.mp hpair
  planned := hE.planned
  started := hE.started
  executed v hv := by
    refine ⟨hE.executed v hv, ?_⟩
    rw [hE.status v hv]
    simp
  revoked _ hv := hE.active_or_executed hv
  beneficiaries v hv := by
    have haccepted := (hE.accepted v hv).1
    exact ⟨List.length_pos_iff.mpr haccepted.count.1, haccepted.count.2, haccepted.shares⟩
  indices := hE.indices
  solMask := hE.solMask
  planMask p hp := (hE.planMask p hp).1
  distMask := hT.mask
  paid := hE.paid

/-- **Lifecycle of the accounts.** At the end of every run that opens no distribution of the
    vault of `o` while its counter is at the largest `u16`, the accounts of `o` agree. -/
theorem lifecycle_of_no_overflow {s₀ : World} {es : List Event} (hinit : Initial c s₀)
    (hrun : Trace (fun s e s' => Step c s e s' ∧ ¬ e.Overflows o s) s₀ es s) : s.Lifecycle o := by
  obtain ⟨-, hlaw, hT⟩ := tallied_trace hinit hrun
  exact hlaw.lifecycle hT

theorem lifecycle_of_no_overflow_sample :
    (Sample.genesis.world.play Sample.cluster Sample.opening).Lifecycle Sample.owner :=
  lifecycle_of_no_overflow (Genesis.initial Sample.genesis_consistent)
    (Genesis.play_below Sample.genesis_consistent Sample.opening_evaluates.1 Sample.owner)

/-! ## The count of open distributions -/

/-- **Exact count.** At the end of every run that opens no distribution of the vault of `o`
    while its counter is at the largest `u16`, the counter is the number of its open
    distributions, and neither close of an executed vault leaves one behind. -/
theorem open_token_dists_exact {s₀ : World} {es : List Event} (hinit : Initial c s₀)
    (hrun : Trace (fun s e s' => Step c s e s' ∧ ¬ e.Overflows o s) s₀ es s) :
    (∀ v, s.vaultConfigs (.vault o) = some v → (s.openDists o).encard = v.openTokenDists) ∧
    ∀ i s', i.kind = .close → i.vaultKey = .vault o → exec c i s = .ok s' → s.openDists o = ∅ := by
  obtain ⟨-, -, hT⟩ := tallied_trace hinit hrun
  refine ⟨hT.count, fun i s' hkind ho hexec => ?_⟩
  -- Each close asks the config of its vault for a counter of zero.
  have hgate : ∃ v, s.vaultConfigs (.vault o) = some v ∧ v.openTokenDists = 0 := by
    cases i with
    | closeExecutedVault ctx =>
        obtain ⟨v, _, _, -, hclosable, -⟩ := closeExecutedVault_ok hexec
        exact ⟨v, ho ▸ hclosable.config, hclosable.swept⟩
    | closeExecutedVaultByOwner ctx =>
        obtain ⟨v, _, _, -, hclosable, -⟩ := closeExecutedVaultByOwner_ok hexec
        exact ⟨v, ho ▸ hclosable.config, hclosable.swept⟩
    | _ => cases hkind
  obtain ⟨v, hv, hzero⟩ := hgate
  have hcount := hT.count v hv
  rw [hzero, Nat.cast_zero, Set.encard_eq_zero] at hcount
  exact hcount

theorem open_token_dists_exact_sample :
    ((Sample.genesis.world.play Sample.cluster Sample.opening).openDists Sample.owner).encard = 1 :=
  (open_token_dists_exact (Genesis.initial Sample.genesis_consistent)
    (Genesis.play_below Sample.genesis_consistent Sample.opening_evaluates.1 Sample.owner)).1 _
    Sample.opening_evaluates.2

end DeadMansVault
