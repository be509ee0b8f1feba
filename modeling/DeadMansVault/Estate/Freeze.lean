-- SUMMARY: Past the deadline an estate only moves forward: its configuration and plan are frozen until it is closed.
import DeadMansVault.Estate.Lifecycle

/-!
# The freeze

Once the deadline has come, the only steps left are those of the execution.
`Proceeds` says what they can change: flags and the counter of the config, more
bits of the masks, and the log. It is transitive, so it holds across every run
that does not close the vault.
-/

namespace DeadMansVault

/-- The deeds of the living: a due estate is past them. -/
def Deed.living : Deed → Bool
  | create | amend | withdraw | revoke | closeRevoked => true
  | _ => false

namespace Estate

/-- The assignments of the plan, if there is one. -/
def assignments (E : Estate) : List AssetAssignment := E.plan.elim [] (·.assignments)

/-- The paid bits of the plan, if there is one. -/
def planBits (E : Estate) : BitVec 64 := E.plan.elim 0 (·.paidMask)

/-- A vault whose deadline has come. -/
def Due (E : Estate) : Prop :=
  ∃ v h, E.config = some v ∧ E.heartbeat = some h ∧ v.deadlineAt h ≤ E.now

structure Proceeds (E E' : Estate) : Prop where
  now : E.now ≤ E'.now
  config : ∀ v, E.config = some v → ∃ v', E'.config = some v' ∧
    v' = { v with
      executed := v'.executed, active := v'.active, openTokenDists := v'.openTokenDists } ∧
    (v.executed = true → v'.executed = true)
  heartbeat : E'.heartbeat = E.heartbeat
  plan : E'.plan.map (·.assignments) = E.plan.map (·.assignments)
  planBits : ∀ j, Bitmask.test E.planBits j = true → Bitmask.test E'.planBits j = true
  log : ∀ l, E.log = some l → ∃ l', E'.log = some l' ∧ l'.solSnapshot = l.solSnapshot ∧
    l'.startedAt = l.startedAt ∧ (l.completed = true → l'.completed = true) ∧
    ∀ i, Bitmask.test l.solPaidMask i = true → Bitmask.test l'.solPaidMask i = true

variable {c : Cluster} {o : Pubkey} {E E' E'' : Estate}

namespace Proceeds

theorem refl (E : Estate) : Proceeds E E where
  now := le_rfl
  config v hv := ⟨v, hv, rfl, fun h => h⟩
  heartbeat := rfl
  plan := rfl
  planBits _ h := h
  log l hl := ⟨l, hl, rfl, rfl, fun h => h, fun _ h => h⟩

theorem trans (h : Proceeds E E') (h' : Proceeds E' E'') : Proceeds E E'' where
  now := h.now.trans h'.now
  config v hv := by
    obtain ⟨v', hv', heq, hx⟩ := h.config v hv
    obtain ⟨v'', hv'', heq', hx'⟩ := h'.config v' hv'
    refine ⟨v'', hv'', ?_, fun hexec => hx' (hx hexec)⟩
    rw [heq', heq]
  heartbeat := h'.heartbeat.trans h.heartbeat
  plan := h'.plan.trans h.plan
  planBits j hj := h'.planBits j (h.planBits j hj)
  log l hl := by
    obtain ⟨l', hl', hsnap, hstart, hdone, hmask⟩ := h.log l hl
    obtain ⟨l'', hl'', hsnap', hstart', hdone', hmask'⟩ := h'.log l' hl'
    exact ⟨l'', hl'', hsnap'.trans hsnap, hstart'.trans hstart, fun hd => hdone' (hdone hd),
      fun i hi => hmask' i (hmask i hi)⟩

theorem assignments_eq (h : Proceeds E E') : E'.assignments = E.assignments := by
  have hplan := h.plan
  unfold assignments
  cases hp : E.plan with
  | none =>
      cases hp' : E'.plan with
      | none => rfl
      | some p' => simp [hp, hp'] at hplan
  | some p =>
      cases hp' : E'.plan with
      | none => simp [hp, hp'] at hplan
      | some p' => simpa [hp, hp'] using hplan

theorem due (h : Proceeds E E') (hdue : E.Due) : E'.Due := by
  obtain ⟨v, hb, hv, hh, hdl⟩ := hdue
  obtain ⟨v', hv', heq, -⟩ := h.config v hv
  refine ⟨v', hb, hv', h.heartbeat.trans hh, ?_⟩
  rw [heq]
  exact hdl.trans h.now

end Proceeds

theorem Lawful.due (hE : Lawful c o E) {l : ExecutionLog} (hl : E.log = some l) : E.Due := by
  obtain ⟨v, h, hv, hh, hdl, hle⟩ := hE.started l hl
  exact ⟨v, h, hv, hh, hdl.trans hle⟩

/-- No owner step is open to a due estate. -/
theorem Due.not_before (hdue : E.Due) {v : VaultConfig} {h : HeartbeatRecord}
    (hv : E.config = some v) (hh : E.heartbeat = some h) : ¬ E.now < v.deadlineAt h := by
  obtain ⟨v', h', hv', hh', hdl⟩ := hdue
  obtain rfl : v = v' := by simpa [hv] using hv'
  obtain rfl : h = h' := by simpa [hh] using hh'
  omega

theorem Due.not_living (hdue : E.Due) (hE : Lawful c o E) {a : Act} (h : Step c o E a E') :
    a.deed.living = false := by
  cases h with
  | create hc _ _ _ _ _ _ =>
      obtain ⟨v, _, hv, -⟩ := hdue
      simp [hc] at hv
  | amend hv hh hnow _ _ _ _ => exact absurd hnow (hdue.not_before hv hh)
  | withdraw hv hh hnow _ => exact absurd hnow (hdue.not_before hv hh)
  | revoke hv hh hnow => exact absurd hnow (hdue.not_before hv hh)
  | closeRevoked hv hactive hexec => exact absurd ⟨hactive, hexec⟩ (hE.active_or_executed hv)
  | _ => rfl

/-- Marking one more assignment as paid. -/
theorem Proceeds.markPlan {p : AssetPlan} {j : Nat} {L : Nat} {H : Pubkey → Nat}
    (hp : E.plan = some p) : Proceeds E { E with
      plan := some { p with paidMask := Bitmask.mark p.paidMask j }
      lamports := L, holding := H } :=
  { Proceeds.refl E with
    plan := by simp [hp]
    planBits := by
      intro k hk
      simp only [Estate.planBits, hp, Option.elim_some] at hk ⊢
      exact Bitmask.test_mark_of_test hk }

/-- Past the deadline every step but the close moves the estate forward. -/
theorem Due.proceeds (hE : Lawful c o E) (hdue : E.Due) {a : Act} (h : Step c o E a E')
    (hclose : a.deed ≠ .close) : Proceeds E E' := by
  have hliving := hdue.not_living hE h
  cases h with
  | create | amend | withdraw | revoke | closeRevoked => cases hliving
  | interfere ht _ _ => exact { Proceeds.refl E with now := ht }
  | begin _ _ hl _ _ _ =>
      exact { Proceeds.refl E with log := by simp [hl] }
  | beginDist hv _ _ _ _ _ =>
      exact { Proceeds.refl E with
        config := by
          intro v' hv'
          obtain rfl : _ = v' := by simpa [hv] using hv'
          exact ⟨_, rfl, rfl, fun h => h⟩ }
  | specificAsset _ _ hp _ _ _ _ _ _ _ _ => exact Proceeds.markPlan hp
  | specificSol _ _ hp _ _ _ _ _ _ => exact Proceeds.markPlan hp
  | solShare _ _ hl _ _ _ _ =>
      exact { Proceeds.refl E with
        log := by
          intro l' hl'
          obtain rfl : _ = l' := by simpa [hl] using hl'
          exact ⟨_, rfl, rfl, rfl, fun h => h, fun _ => Bitmask.test_mark_of_test⟩ }
  | tokenShare _ _ _ _ _ _ => exact { Proceeds.refl E with }
  | finalize hv hl _ _ _ _ =>
      exact { Proceeds.refl E with
        config := by
          intro v' hv'
          obtain rfl : _ = v' := by simpa [hv] using hv'
          exact ⟨_, rfl, rfl, fun _ => rfl⟩
        log := by
          intro l' hl'
          obtain rfl : _ = l' := by simpa [hl] using hl'
          exact ⟨_, rfl, rfl, rfl, fun _ => rfl, fun _ h => h⟩ }
  | closeDist hv _ _ _ _ =>
      exact { Proceeds.refl E with
        config := by
          intro v' hv'
          obtain rfl : _ = v' := by simpa [hv] using hv'
          exact ⟨_, rfl, rfl, fun h => h⟩ }
  | close _ _ _ _ _ _ => exact absurd rfl hclose

/-- So does every run without a close. -/
theorem Due.proceeds_run (hE : Lawful c o E) (hdue : E.Due) {acts : List Act}
    (h : Trace (Step c o) E acts E') (hclose : ∀ a ∈ acts, a.deed ≠ .close) :
    Proceeds E E' := by
  have hrun := (h.restrict hclose).preserves (P := fun F => Lawful c o F ∧ Proceeds E F)
    (fun F a F' ⟨hF, hp⟩ hstep =>
      ⟨hF.step hstep.1, hp.trans ((hp.due hdue).proceeds hF hstep.1 hstep.2)⟩)
    ⟨hE, .refl E⟩
  exact hrun.2

end Estate

end DeadMansVault
