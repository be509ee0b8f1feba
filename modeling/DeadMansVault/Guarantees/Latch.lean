-- SUMMARY: The latch of stage 4 outlives a failed run, and exactly when it does not.
import DeadMansVault.Device.Escalation

/-!
# The latch of stage 4

`executionStarted` keeps a second service from firing the execution again. A run that
ends early leaves it set, and the stage it was fired at, so that nothing fires it a
second time. Two runs are never in flight at once, whatever happens.
-/

namespace DeadMansVault

open Device Escalation

variable {s : Escalation} {e : EscalationEvent}

/-- While the latch is set, a run is in flight or the vault's execution has completed. -/
def Backed (s : Escalation) : Prop :=
  s.store.executionStarted = true → 0 < s.runs ∨ s.completed = true

/-- At this step the latch stays backed, at most one run is in flight, and with none in flight
and the execution not completed an evaluation that finds stage 4 starts one. -/
structure Resumable (s : Escalation) (e : EscalationEvent) : Prop where
  backed : Backed (step s e).1
  single : (step s e).1.runs ≤ 1
  reenters : (s.stageFour e).isSome = true → s.runs = 0 → s.completed = false →
    .runStarted ∈ (step s e).2

/-- What has to be so for the step to be resumable: a run ends with the execution completed, or
the latch already cleared; and an evaluation that has to start a run finds a wallet to execute
for, and its service not yet at stage 4. -/
structure Careful (s : Escalation) (e : EscalationEvent) : Prop where
  ends : ∀ r, e = .runEnded r → 0 < s.runs →
    r.completed = true ∨ s.completed = true ∨ s.store.executionStarted = false
  fires : ∀ service, s.stageFour e = some service → s.runs = 0 → s.completed = false →
    service.executionCallback = true ∧ service.currentStage ≠ 4

namespace Device.Escalation

theorem Quiet.of_update {i : Nat} {f : EscalationService → EscalationService}
    {answer : Escalation × List EscalationOutput} (h : Quiet (s.update i f) answer) :
    Quiet s answer := ⟨h.runs, h.flag, h.completed, h.latch, h.silent⟩

theorem Quiet.backed {answer : Escalation × List EscalationOutput} (h : Quiet s answer)
    (hs : Backed s) : Backed answer.1 := by
  intro hlatch
  rw [h.runs, h.completed]
  exact hs (h.latch hlatch)

/-- The evaluation that finds stage 4. -/
theorem stageFour_some {service : EscalationService} (h : s.stageFour e = some service) :
    ∃ i status, status.lastHeartbeat ≠ 0 ∧ status.isOverdue = true ∧
      service.calculateStage status.secondsOverdue = 4 ∧
      step s e = Escalation.evaluate (s.update i fun service =>
        { service with evaluating := service.evaluating - 1 }) i service status := by
  cases e with
  | evaluated i answer =>
      cases answer with
      | none => cases h
      | some read =>
          obtain ⟨last, now⟩ := read
          obtain ⟨hservice, hfound⟩ := Option.filter_eq_some_iff.mp h
          obtain ⟨hawaits, hsome, hdue, hfour⟩ := of_decide_eq_true hfound
          refine ⟨i, service.getStatus last now, hsome, hdue, hfour, ?_⟩
          simp only [step, hservice, if_neg hawaits]
  | created owner intervalSeconds config => cases h
  | stopped i => cases h
  | ticked i => cases h
  | heartbeat i => cases h
  | runEnded r => cases h
  | completedElsewhere => cases h

/-- An evaluation that does not find stage 4. -/
theorem quiet_evaluated {i : Nat} {answer : Option (Option Int × Int)}
    (h : s.stageFour (.evaluated i answer) = none) : Quiet s (step s (.evaluated i answer)) := by
  cases hservice : s.services[i]? with
  | none =>
      simp only [step, hservice]
      exact .refl s
  | some service =>
      by_cases hawaits : service.evaluating = 0
      · simp only [step, hservice, hawaits, if_true]
        exact .refl s
      · simp only [step, hservice, if_neg hawaits]
        cases answer with
        | none => exact ⟨rfl, rfl, rfl, id, rfl⟩
        | some read =>
            obtain ⟨last, now⟩ := read
            refine Quiet.of_update (quiet_evaluate fun hsome hdue hfour => ?_)
            -- Stage 4 would have been found here.
            have hfound : s.stageFour (.evaluated i (some (last, now))) = some service :=
              Option.filter_eq_some_iff.mpr
                ⟨hservice, decide_eq_true ⟨hawaits, hsome, hdue, hfour⟩⟩
            cases h.symm.trans hfound

/-- A step that neither ends a run nor finds stage 4. -/
theorem step_other (hend : ∀ r, e ≠ .runEnded r) (hfour : s.stageFour e = none) :
    Quiet s (step s e) ∨ step s e = ({ s with completed := true }, []) := by
  cases e with
  | evaluated i answer => exact .inl (quiet_evaluated hfour)
  | created owner intervalSeconds config => exact .inl ⟨rfl, rfl, rfl, id, rfl⟩
  | stopped i => exact .inl ⟨rfl, rfl, rfl, id, rfl⟩
  | ticked i =>
      refine .inl ?_
      unfold step
      dsimp only
      split
      · exact ⟨rfl, rfl, rfl, id, rfl⟩
      · exact .refl s
  | heartbeat i => exact .inl (.reset s i)
  | runEnded r => exact absurd rfl (hend r)
  | completedElsewhere => exact .inr rfl

/-- An evaluation that finds stage 4 is quiet, where the latch is set or the service is at stage
4 already; else it sets the latch, and fires what is to be fired. -/
theorem step_stageFour {service : EscalationService} (h : s.stageFour e = some service) :
    ((service.currentStage = 4 ∨ s.store.executionStarted = true) ∧ Quiet s (step s e)) ∨
    ∃ s₁ : Escalation, service.currentStage ≠ 4 ∧ s.store.executionStarted = false ∧
      s₁.runs = s.runs ∧ s₁.globalExecutionInProgress = s.globalExecutionInProgress ∧
      s₁.completed = s.completed ∧ s₁.store.executionStarted = true ∧
      step s e = if service.executionCallback then s₁.execute else (s₁, []) := by
  obtain ⟨i, status, hsome, hdue, hfour, hstep⟩ := stageFour_some h
  by_cases hquiet : service.currentStage = 4 ∨ s.store.executionStarted = true
  · refine .inl ⟨hquiet, ?_⟩
    rw [hstep]
    exact Quiet.of_update (quiet_evaluate fun _ _ _ => hquiet)
  · obtain ⟨hcurrent, hlatch⟩ := not_or.mp hquiet
    have hclear := eq_false_of_ne_true hlatch
    refine .inr ⟨latched (s.update i fun service =>
      { service with evaluating := service.evaluating - 1 }) i, hcurrent, hclear, rfl, rfl, rfl,
      rfl, ?_⟩
    rw [hstep]
    exact evaluate_four hsome hdue hfour hcurrent hclear

/-- At most one run is in flight after each step, and the flag says so. -/
theorem single_step (hs : s.Single) : (step s e).1.Single := by
  rcases hfound : s.stageFour e with _ | service
  · cases e with
    | runEnded r =>
        unfold step
        dsimp only
        split
        · exact hs
        · exact hs.runEnded r
    | _ =>
        rcases step_other (by nofun) hfound with hquiet | hdone
        · exact hquiet.single hs
        · rw [hdone]
          exact hs
  · rcases step_stageFour hfound with ⟨-, hquiet⟩ | ⟨s₁, -, -, hruns, hflag, -, -, hstep⟩
    · exact hquiet.single hs
    · have hs₁ : s₁.Single := by
        rw [Single, hruns, hflag]
        exact hs
      rw [hstep]
      split
      · exact hs₁.execute
      · exact hs₁

/-- Where nothing is in flight, an execution starts. -/
theorem execute_idle (h : s.globalExecutionInProgress = false) :
    s.execute.1.runs = s.runs + 1 ∧ s.execute.2 = [.runStarted] := by
  unfold execute
  rw [if_neg (by rw [h]; decide)]
  exact ⟨rfl, rfl⟩

theorem execute_backed (h : s.Single) : Backed s.execute.1 := by
  refine fun _ => .inl ?_
  cases hflag : s.globalExecutionInProgress with
  | false =>
      rw [(execute_idle hflag).1]
      exact Nat.succ_pos _
  | true =>
      simp only [execute, hflag, if_true]
      rw [h, hflag]
      exact Nat.one_pos

theorem backed_runEnded {r : RunEnd} (hs : Backed s) (hend : 0 < s.runs →
    r.completed = true ∨ s.completed = true ∨ s.store.executionStarted = false) :
    Backed (step s (.runEnded r)).1 := by
  by_cases hruns : s.runs = 0
  · simp only [step, if_pos hruns]
    exact hs
  · simp only [step, if_neg hruns]
    intro hlatch
    unfold Escalation.runEnded at hlatch ⊢
    cases hr : r.completed with
    | true =>
        simp only [hr, if_true] at hlatch
        cases hlatch
    | false =>
        simp only [hr, Bool.false_eq_true, if_false] at hlatch ⊢
        rcases hend (Nat.pos_of_ne_zero hruns) with hdone | hdone | hclear
        · exact absurd (hr.symm.trans hdone) Bool.false_ne_true
        · exact .inr hdone
        · exact absurd (hclear.symm.trans hlatch) Bool.false_ne_true

/-- A careful step is resumable. -/
theorem resumable_of_careful (hs : s.Single) (hb : Backed s) (hc : Careful s e) :
    Resumable s e := by
  have hsingle := (single_step hs (e := e)).le
  rcases hfound : s.stageFour e with _ | service
  · have hnone : (s.stageFour e).isSome ≠ true := by
      rw [hfound]
      decide
    refine ⟨?_, hsingle, fun hsome => absurd hsome hnone⟩
    cases e with
    | runEnded r => exact backed_runEnded hb (hc.ends r rfl)
    | _ =>
        rcases step_other (by nofun) hfound with hquiet | hdone
        · exact hquiet.backed hb
        · rw [hdone]
          exact fun _ => .inr rfl
  · rcases step_stageFour hfound with ⟨hwhy, hquiet⟩ |
      ⟨s₁, -, -, hruns, hflag, hcompleted, -, hstep⟩
    · refine ⟨hquiet.backed hb, hsingle, fun _ hidle hopen => ?_⟩
      -- The latch is clear, as nothing backs it; so the service is at stage 4 already.
      obtain ⟨-, hcurrent⟩ := hc.fires service hfound hidle hopen
      rcases hwhy with hfour | hlatch
      · exact absurd hfour hcurrent
      · rcases hb hlatch with hrun | hdone
        · exact absurd hrun (by omega)
        · exact absurd (hopen.symm.trans hdone) Bool.false_ne_true
    · have hs₁ : s₁.Single := by
        rw [Single, hruns, hflag]
        exact hs
      have hfires : s.runs = 0 → s.completed = false →
          step s e = s₁.execute ∧ s₁.globalExecutionInProgress = false := by
        intro hidle hopen
        refine ⟨?_, hflag.trans (hs.idle hidle)⟩
        rw [hstep, if_pos (hc.fires service hfound hidle hopen).1]
      refine ⟨?_, hsingle, fun _ hidle hopen => ?_⟩
      · rcases Nat.eq_zero_or_pos s.runs with hidle | hrun
        · cases hopen : s.completed with
          | false =>
              rw [(hfires hidle hopen).1]
              exact execute_backed hs₁
          | true =>
              rw [hstep]
              split
              · exact execute_backed hs₁
              · exact fun _ => .inr (hcompleted.trans hopen)
        · rw [hstep]
          split
          · exact execute_backed hs₁
          · exact fun _ => .inl (hruns ▸ hrun)
      · obtain ⟨hexecute, hfree⟩ := hfires hidle hopen
        rw [hexecute, (execute_idle hfree).2]
        exact List.mem_singleton.mpr rfl

/-- A resumable step was careful. -/
theorem careful_of_resumable (hs : s.Single) (h : Resumable s e) : Careful s e where
  ends r hr hruns := by
    subst hr
    have hle := hs.le
    have hbacked := h.backed
    simp only [step, if_neg (Nat.ne_of_gt hruns)] at hbacked
    unfold Backed Escalation.runEnded at hbacked
    cases hr : r.completed with
    | true => exact .inl rfl
    | false =>
        simp only [hr, Bool.false_eq_true, if_false] at hbacked
        refine .inr ?_
        cases hlatch : s.store.executionStarted with
        | false => exact .inr rfl
        | true =>
            rcases hbacked hlatch with hrun | hdone
            · omega
            · exact .inl hdone
  fires service hfound hidle hopen := by
    have hstarted := h.reenters (by rw [hfound]; rfl) hidle hopen
    rcases step_stageFour hfound with ⟨-, hquiet⟩ | ⟨s₁, hcurrent, -, -, -, -, -, hstep⟩
    · rw [hquiet.silent] at hstarted
      cases hstarted
    · refine ⟨?_, hcurrent⟩
      cases hcallback : service.executionCallback with
      | true => rfl
      | false =>
          rw [hstep, if_neg (by rw [hcallback]; decide)] at hstarted
          cases hstarted

end Device.Escalation

/-- In every sequence of events in one process: each step is resumable exactly when each is
careful; and in any case two runs are never in flight at once. -/
theorem latch_resumable_iff (es : List EscalationEvent) :
    (Machine.Along step Resumable {} es ↔ Machine.Along step Careful {} es) ∧
      (Machine.run step {} es).runs ≤ 1 := by
  have hsingle : ∀ es, (Machine.run step {} es).Single := fun es =>
    Machine.preserves (P := fun _ (s : Escalation) => s.Single) (Q := fun _ _ => True)
      (fun _ s e hs _ => single_step hs) Machine.along_true rfl
  refine ⟨⟨fun h => ?_, fun h => ?_⟩, (hsingle es).le⟩
  · refine Machine.along_of_at_step fun es₁ e es₂ hes => ?_
    subst hes
    exact careful_of_resumable (hsingle es₁) h.at_step
  · refine Machine.along_of_at_step fun es₁ e es₂ hes => ?_
    subst hes
    have hbacked : Backed (Machine.run step {} es₁) := by
      refine (Machine.preserves (P := fun _ (s : Escalation) => s.Single ∧ Backed s) (fun _ s e hs hc => ?_)
        h.of_append ⟨rfl, nofun⟩).2
      exact ⟨single_step hs.1, (resumable_of_careful hs.1 hs.2 hc).backed⟩
    exact resumable_of_careful (hsingle es₁) hbacked h.at_step

/-- Stage 4 is found and the run fails; a service that is created later, when the effect runs
again, finds stage 4 too. -/
def failedRun : List EscalationEvent :=
  [.created true 86_400 ⟨30, 30, 30⟩, .evaluated 0 (some (some 1, 200_000)), .runEnded .threw,
    .stopped 0, .created true 86_400 ⟨30, 30, 30⟩, .evaluated 1 (some (some 1, 200_060))]

/-- After the failed run the latch is set and nothing is in flight, and the next evaluation that
finds stage 4 starts nothing. -/
theorem failed_run_latched :
    ¬ Machine.Along step Resumable {} failedRun ∧
      (Machine.run step {} failedRun).store.executionStarted = true ∧
      (Machine.run step {} failedRun).runs = 0 ∧
      (Machine.run step {} failedRun).completed = false ∧
      Machine.outputs step {} failedRun = [.runStarted] := by
  refine ⟨fun h => ?_, by decide, by decide, by decide, by decide⟩
  have hall : Machine.Along step Resumable {}
      (failedRun.take 5 ++ [.evaluated 1 (some (some 1, 200_060))]) := h
  have hlast := hall.at_step
  exact absurd (hlast.reenters (by decide) (by decide) (by decide)) (by decide)

end DeadMansVault
