-- SUMMARY: The window in which only the owner closes an executed vault: where it starts, and what is left of it.
import DeadMansVault.Guarantees.Events
import DeadMansVault.Guarantees.Freeze
import DeadMansVault.Program.Scenario

/-!
# The owner's window

The delay before anyone may close an executed vault is counted from
`begin_execution`. The owner's own close waits for the finalize and the last
`close_token_dist`, which may come at any time later.
-/

namespace DeadMansVault

open World

variable {c : Cluster} {o : Pubkey} {s₀ s s' : World} {es : List Event}

/-- The owner's close is enabled. -/
def World.ownerCanClose (s : World) (o : Pubkey) : Prop :=
  ∃ v, s.vaultConfigs (.vault o) = some v ∧ v.executed = true ∧ v.openTokenDists = 0

/-- The event ends what the owner's close waits for. -/
def Event.Clears (o : Pubkey) (e : Event) : Prop :=
  (∃ ctx moved, e = .executed (.finalizeExecution ctx) moved ∧ ctx.vaultConfig = .vault o) ∨
    ∃ ctx moved, e = .executed (.closeTokenDist ctx) moved ∧ ctx.vaultConfig = .vault o

/-- Every other step leaves the owner's close as it was, or disables it. -/
theorem Estate.Step.not_clearing {E E' : Estate} {a : Act} (h : Estate.Step c o E a E')
    (hfin : ∀ payer, a.deed ≠ .finalize payer) (hdist : ∀ m, a.deed ≠ .closeDist m)
    (hE' : ∃ v, E'.config = some v ∧ v.executed = true ∧ v.openTokenDists = 0) :
    ∃ v, E.config = some v ∧ v.executed = true ∧ v.openTokenDists = 0 := by
  obtain ⟨v', hv', hexec, hopen⟩ := hE'
  cases h with
  | create _ _ hfresh =>
      obtain rfl := Option.some.inj hv'
      rw [hfresh.executed] at hexec
      cases hexec
  | amend hv _ _ hedit =>
      obtain rfl := Option.some.inj hv'
      exact ⟨_, hv, hedit.executed ▸ hexec, hedit.openTokenDists ▸ hopen⟩
  | revoke | closeRevoked | close => cases hv'
  | beginDist hv =>
      obtain rfl := Option.some.inj hv'
      simp only [saturatingAdd, u16Max] at hopen
      omega
  | finalize => exact absurd rfl (hfin _)
  | closeDist => exact absurd rfl (hdist _)
  | _ => exact ⟨v', hv', hexec, hopen⟩

theorem Answers.clears {e : Event} {acts : List Act} (h : Answers c o e acts) {a : Act}
    (ha : a ∈ acts) (hdeed : (∃ payer, a.deed = .finalize payer) ∨ ∃ m, a.deed = .closeDist m) :
    e.Clears o := by
  have hone : a.deed ≠ .interfere ∧ a.deed.batched = false := by
    rcases hdeed with ⟨_, hdeed⟩ | ⟨_, hdeed⟩ <;> simp [hdeed, Deed.batched]
  obtain ⟨i, moved, rfl, ho, hunf⟩ := h.own ha hone.1
  rw [h.single ha hone.2, List.map_singleton] at hunf
  cases i with
  | executeSolShares =>
      obtain ⟨_, heq⟩ := hunf _ (List.mem_singleton_self _)
      simp [heq, Deed.batched] at hone
  | executeTokenShares =>
      obtain ⟨_, heq⟩ := hunf _ (List.mem_singleton_self _)
      simp [heq, Deed.batched] at hone
  | finalizeExecution ctx => exact .inl ⟨ctx, moved, rfl, ho⟩
  | closeTokenDist ctx => exact .inr ⟨ctx, moved, rfl, ho⟩
  | _ =>
      simp only [Instruction.Unfolds, List.cons.injEq, and_true] at hunf
      simp [hunf] at hdeed

/-- Only a finalize or a close of a distribution enables the owner's close. -/
theorem Step.clears {e : Event} (hs : s.Sound c) (h : Step c s e s') (hnot : ¬ s.ownerCanClose o)
    (hcan : s'.ownerCanClose o) : e.Clears o := by
  obtain ⟨acts, hacts, hans⟩ := step_refines hs h o
  by_contra hclears
  have hrest := hacts.restrict (Q := fun a => (∀ payer, a.deed ≠ .finalize payer) ∧
    ∀ m, a.deed ≠ .closeDist m) fun a ha =>
      ⟨fun payer hdeed => hclears (hans.clears ha (.inl ⟨payer, hdeed⟩)),
        fun m hdeed => hclears (hans.clears ha (.inr ⟨m, hdeed⟩))⟩
  exact hrest.preserves
    (P := fun E : Estate => ¬ ∃ v, E.config = some v ∧ v.executed = true ∧ v.openTokenDists = 0)
    (fun E a E' hE hstep hcan => hE (hstep.1.not_clearing hstep.2.1 hstep.2.2 hcan)) hnot hcan

/-! ## The begin of the execution -/

/-- Only `begin_execution` makes a log. -/
theorem Estate.Step.log_none {E E' : Estate} {a : Act} (h : Estate.Step c o E a E')
    (hdeed : a.deed ≠ .begin) (hl : E.log = none) : E'.log = none := by
  cases h with
  | begin => exact absurd rfl hdeed
  | solShare _ _ hlog | finalize _ hlog =>
      rw [hl] at hlog
      cases hlog
  | close => rfl
  | _ => exact hl

theorem Answers.begin {e : Event} {acts : List Act} (h : Answers c o e acts) {a : Act}
    (ha : a ∈ acts) (hdeed : a.deed = .begin) :
    ∃ ctx moved, e = .executed (.beginExecution ctx) moved ∧ ctx.vaultConfig = .vault o := by
  obtain ⟨i, moved, rfl, ho, hunf⟩ := h.own ha (by simp [hdeed])
  rw [h.single ha (by simp [hdeed, Deed.batched]), List.map_singleton, hdeed] at hunf
  cases i with
  | executeSolShares => simp [Instruction.Unfolds] at hunf
  | executeTokenShares => simp [Instruction.Unfolds] at hunf
  | beginExecution ctx => exact ⟨ctx, moved, rfl, ho⟩
  | _ => simp [Instruction.Unfolds] at hunf

/-- The close of a vault takes its log along. -/
theorem Step.closes_log {e : Event} (hs : s.Sound c) (h : Step c s e s') (hclose : e.closes o = true) :
    s'.executionLogs (.execution (.vault o)) = none := by
  obtain ⟨acts, hacts, -, hshape⟩ := step_refines hs h o
  cases e with
  | rejected | environment => cases hclose
  | executed i moved =>
      simp only [Event.closes, Bool.and_eq_true, decide_eq_true_eq] at hclose
      obtain ⟨ho, hkind⟩ := hclose
      simp only [ho, if_true] at hshape
      have hdeeds : acts.map (·.deed) = [.close] := by
        cases i with
        | closeExecutedVault | closeExecutedVaultByOwner => exact hshape
        | _ => cases hkind
      obtain ⟨a, rfl, hdeed⟩ := List.map_eq_singleton_iff.mp hdeeds
      obtain ⟨_, hone, hnil⟩ := Trace.cons_iff.mp hacts
      obtain rfl := Trace.nil_iff.mp hnil
      change (s'.estate c o).log = none
      generalize s'.estate c o = E' at hone
      cases hone with
      | close => rfl
      | _ => cases hdeed

/-- The run holds the begin of the execution whose log is `l`, and no close since. -/
def BegunIn (c : Cluster) (o : Pubkey) (s₀ : World) (es : List Event) (s : World)
    (l : ExecutionLog) : Prop :=
  ∃ ctx moved t t' pre post, es = pre ++ .executed (.beginExecution ctx) moved :: post ∧
    ctx.vaultConfig = .vault o ∧ Trace (Step c) s₀ pre t ∧
    exec c (.beginExecution ctx) t = .ok t' ∧ Trace (Step c) t' post s ∧
    (∀ e ∈ post, e.closes o = false) ∧ l.startedAt = t.now

/-- Where there is a log, the run has begun the execution. -/
theorem begunIn_of_log (hs : s₀.Sound c) (hnone : s₀.executionLogs (.execution (.vault o)) = none)
    (hlaw : (s₀.estate c o).Lawful c o) (hrun : Trace (Step c) s₀ es s) :
    ∀ l, s.executionLogs (.execution (.vault o)) = some l → BegunIn c o s₀ es s l := by
  have hend := hrun.preserves_history
    (P := fun es s => Trace (Step c) s₀ es s ∧ s.Sound c ∧ (s.estate c o).Lawful c o ∧
      ∀ l, s.executionLogs (.execution (.vault o)) = some l → BegunIn c o s₀ es s l) ?_
    ⟨.nil _, hs, hlaw, by simp [hnone]⟩
  · exact hend.2.2.2
  rintro es s e s' ⟨hpre, hs, hlaw, hbegun⟩ hstep
  obtain ⟨acts, hacts, hans⟩ := step_refines hs hstep o
  refine ⟨hpre.snoc hstep, hs.step hstep, hlaw.run hacts, fun l' hl' => ?_⟩
  cases hl : s.executionLogs (.execution (.vault o)) with
  | some l =>
      -- An execution under way keeps its start, unless it is closed and its log gone.
      have hopen : e.closes o = false := by
        by_contra hclose
        rw [hstep.closes_log hs (by simpa using hclose)] at hl'
        cases hl'
      have hnext := (hlaw.due hl).proceeds_run hlaw hacts (hans.not_close hopen)
      obtain ⟨k, hk, -, hstart, -⟩ := hnext.log l hl
      obtain rfl : k = l' := Option.some.inj (hk.symm.trans hl')
      obtain ⟨ctx, moved, t, t', pre, post, rfl, ho, hbefore, hbegin, hafter, hopens, hnow⟩ :=
        hbegun l hl
      refine ⟨ctx, moved, t, t', pre, post ++ [e], by simp, ho, hbefore, hbegin,
        hafter.snoc hstep, fun e' he' => ?_, hstart.trans hnow⟩
      rcases List.mem_append.mp he' with he' | he'
      · exact hopens e' he'
      · rw [List.mem_singleton.mp he']
        exact hopen
  | none =>
      obtain ⟨a, ha, hdeed⟩ : ∃ a ∈ acts, a.deed = .begin := by
        by_contra hno
        push Not at hno
        have hstill := (hacts.restrict hno).preserves (P := fun E : Estate => E.log = none)
          (fun E a E' hE hone => hone.1.log_none hone.2 hE) hl
        rw [show (s'.estate c o).log = some l' from hl'] at hstill
        cases hstill
      obtain ⟨ctx, moved, rfl, ho⟩ := hans.begin ha hdeed
      rw [hans.single ha (by simp [hdeed, Deed.batched])] at hacts
      obtain ⟨_, hone, hnil⟩ := Trace.cons_iff.mp hacts
      obtain rfl := Trace.nil_iff.mp hnil
      obtain ⟨_, _, -, -, -, -, -, heq⟩ := hone.begin_eq hdeed
      have hlog : (s'.estate c o).log = some l' := hl'
      rw [heq] at hlog
      obtain rfl := Option.some.inj hlog
      cases hstep with
      | executed hexec => exact ⟨ctx, _, s, s', es, [], rfl, ho, hpre, hexec, .nil _, by simp, rfl⟩

/-! ## The window -/

/-- **The owner's window.** When `close_executed_vault` succeeds, the execution began at
    least the delay before; until the delay was over, no `close_executed_vault` could
    succeed; and the owner's close was enabled ever since the finalize or the close of
    a distribution that it waited for. -/
theorem owner_window {ctx : CloseExecutedVault} (hinit : Initial c s₀)
    (hrun : Trace (Step c) s₀ es s) (ho : ctx.vaultConfig = .vault o)
    (hclose : exec c (.closeExecutedVault ctx) s = .ok s') :
    (∃ begin moved t t' pre post, es = pre ++ .executed (.beginExecution begin) moved :: post ∧
      begin.vaultConfig = .vault o ∧ Trace (Step c) s₀ pre t ∧
      exec c (.beginExecution begin) t = .ok t' ∧ Trace (Step c) t' post s ∧
      (∀ e ∈ post, e.closes o = false) ∧ t.now + executedCloseDelay c.devnet ≤ s.now ∧
      ∀ u mid rest, post = mid ++ rest → Trace (Step c) t' mid u → Trace (Step c) u rest s →
        u.now < t.now + executedCloseDelay c.devnet → ∀ ctx' u', ctx'.vaultConfig = .vault o →
        exec c (.closeExecutedVault ctx') u ≠ .ok u') ∧
    ∃ u u' pre post e, es = pre ++ e :: post ∧ Trace (Step c) s₀ pre u ∧ Step c u e u' ∧
      e.Clears o ∧ ¬ u.ownerCanClose o ∧
      Trace (fun a e b => Step c a e b ∧ a.ownerCanClose o ∧ b.ownerCanClose o) u' post s ∧
      s.ownerCanClose o := by
  have hreach : Reachable c s₀ := .initial hinit
  obtain ⟨v, l, _, -, hgate, -, hdelay, -⟩ := closeExecutedVault_ok hclose
  rw [ho] at hgate
  have hl : s.executionLogs (.execution (.vault o)) = some l := hgate.log
  constructor
  · obtain ⟨begin, moved, t, t', pre, post, heq, hb, hpre, hbegin, hpost, hopens, hstart⟩ :=
      begunIn_of_log hreach.sound (hinit.executionLogs _) (hreach.lawful o) hrun l hl
    refine ⟨begin, moved, t, t', pre, post, heq, hb, hpre, hbegin, hpost, hopens, ?_, ?_⟩
    · rw [← hstart]
      exact hdelay
    rintro u mid rest rfl hmid hrest hearly ctx' u' ho' hclose'
    obtain ⟨v', l', _, -, hgate', -, hdelay', -⟩ := closeExecutedVault_ok hclose'
    rw [ho'] at hgate'
    have hl' : u.executionLogs (.execution (.vault o)) = some l' := hgate'.log
    -- The log at `u` is the one at the end of the run.
    have hreach' : Reachable c u := (hreach.trace hpre).step (.executed hbegin) |>.trace hmid
    have hnext := due_proceeds hreach' ((hreach'.lawful o).due hl') hrest
      fun e he => hopens e (List.mem_append_right _ he)
    obtain ⟨k, hk, -, hsame, -⟩ := hnext.log l' hl'
    obtain rfl : k = l := Option.some.inj (hk.symm.trans hl)
    have hnow : u.fresh.now = u.now := rfl
    omega
  · have hcan : s.ownerCanClose o := ⟨v, hgate.config, hgate.executed, hgate.swept⟩
    have hnot : ¬ s₀.ownerCanClose o := by
      rintro ⟨w, hw, -⟩
      rw [hinit.vaultConfigs] at hw
      cases hw
    obtain ⟨u, u', pre, post, e, heq, hpre, hstep, hu, hu', hpost⟩ :=
      hrun.since (P := fun t => t.ownerCanClose o) hnot hcan
    exact ⟨u, u', pre, post, e, heq, hpre, hstep,
      hstep.clears (hreach.trace hpre).sound hu hu', hu, hpost, hcan⟩

namespace Sample

/-- The begin, the payouts and the finalize of a vault without a plan. -/
def beginUnplanned : Instruction :=
  .beginExecution ⟨keeper, vault, .heartbeat vault, .execution vault, none⟩

def finalizeUnplanned : Instruction :=
  .finalizeExecution ⟨keeper, vault, .execution vault, none⟩

def closeExecutedVault : CloseExecutedVault :=
  ⟨keeper, vault, .heartbeat vault, .execution vault, none, some alice⟩

/-- The finalize comes a day after the begin. -/
def lateFinalize : List Cue := [.run (initializeVault beneficiaries), .wait 691_200,
  .run beginUnplanned, executeSolShares [alice, bob] [0, 1], .wait 86_400]

end Sample

/-- On the sample vault, finalized a day after the begin. -/
theorem owner_window_sample :
    ∃ u u' pre post e, (Sample.genesis.world.events Sample.cluster
        (Sample.lateFinalize ++ [.run Sample.finalizeUnplanned])) = pre ++ e :: post ∧
      Trace (Step Sample.cluster) Sample.genesis.world pre u ∧ Step Sample.cluster u e u' ∧
      e.Clears Sample.owner := by
  have hinit := Genesis.initial (c := Sample.cluster) Sample.genesis_consistent
  have hplays : Sample.genesis.world.plays Sample.cluster noCheck
      (Sample.lateFinalize ++ [.run Sample.finalizeUnplanned]) = true := by decide +kernel
  have hrun := (Reachable.initial hinit).sound.play hplays
  obtain ⟨-, u, u', pre, post, e, heq, hpre, hstep, hclears, -⟩ :=
    owner_window (o := Sample.owner) hinit (hrun.mono fun _ _ _ hstep => hstep.1) rfl
      (exec_cue (i := .closeExecutedVault Sample.closeExecutedVault) (by decide +kernel))
  exact ⟨u, u', pre, post, e, heq, hpre, hstep, hclears⟩

/-- There anyone closes the vault the moment it is finalized: the owner's close was not
    enabled for the length of the delay. -/
theorem owner_window_elapsed :
    ∃ (s₀ s s' : World) (es : List Event), Initial Sample.cluster s₀ ∧
      Trace (Step Sample.cluster) s₀ es s ∧
      exec Sample.cluster (.closeExecutedVault Sample.closeExecutedVault) s = .ok s' ∧
      ¬ ∃ u pre post, es = pre ++ post ∧ Trace (Step Sample.cluster) s₀ pre u ∧
        u.now ≤ s.now - executedCloseDelay Sample.cluster.devnet ∧ u.ownerCanClose Sample.owner ∧
        Trace (fun a e b => Step Sample.cluster a e b ∧ a.ownerCanClose Sample.owner ∧
          b.ownerCanClose Sample.owner) u post s := by
  have hinit := Genesis.initial (c := Sample.cluster) Sample.genesis_consistent
  have hplays : Sample.genesis.world.plays Sample.cluster noCheck Sample.lateFinalize = true := by
    decide +kernel
  have hbefore := ((Reachable.initial hinit).sound.play hplays).mono fun _ _ _ hstep => hstep.1
  have hfin : exec Sample.cluster Sample.finalizeUnplanned
      (Sample.genesis.world.play Sample.cluster Sample.lateFinalize) = .ok _ :=
    exec_cue (by decide +kernel)
  refine ⟨_, _, _, _, hinit, hbefore.snoc (.executed hfin), exec_cue (by decide +kernel), ?_⟩
  rintro ⟨u, pre, post, heq, -, hearly, -, hpost⟩
  cases hlast : post.getLast? with
  | none =>
      -- The owner's close would have been enabled in the last state alone, too late.
      obtain rfl := List.getLast?_eq_none_iff.mp hlast
      obtain rfl := Trace.nil_iff.mp hpost
      have hdelay : 0 < executedCloseDelay Sample.cluster.devnet := by decide
      omega
  | some x =>
      -- Or before the finalize, which wants an unexecuted vault.
      have hx := congrArg List.getLast? heq
      rw [List.getLast?_concat, List.getLast?_append, hlast, Option.some_or, Option.some.injEq] at hx
      obtain ⟨a, b, -, -, -, -, ⟨hstep, ⟨v, hv, hexec, -⟩, -⟩, -⟩ :=
        hpost.mem_split (List.mem_of_getLast? hlast)
      obtain ⟨moved, rfl⟩ : ∃ moved, x = .executed Sample.finalizeUnplanned moved := ⟨_, hx.symm⟩
      cases hstep with
      | executed h =>
          obtain ⟨w, l, -, hgate, hunexec, -⟩ := finalizeExecution_ok h
          obtain rfl : v = w := Option.some.inj (hv.symm.trans hgate.config)
          rw [hexec] at hunexec
          cases hunexec

end DeadMansVault
