-- SUMMARY: The server's readiness: what a domain that is up rests on, and that the transport's fails closed.
import DeadMansVault.Notify.Fcm
import DeadMansVault.Notify.Readiness

/-!
# Readiness

Along every sequence of calls, the domains that rest on others are up only while
those are. The domain of the push transport is the mirror of the state that probes
and sends decide together, whatever the order in which their awaits end.
-/

namespace DeadMansVault

open Notify

/-! ## Domains -/

/-- After every sequence of events, and at every event that comes next. -/
theorem readiness_subordinate (fcmWaived executorWaived : Bool) (es : List ReadinessEvent) :
    let s := ReadinessState.after fcmWaived executorWaived es
    (s.executorReady = true → s.networkVerified = true ∧ s.programReady = true) ∧
      (s.pollerReady = true → s.networkVerified = true) ∧
      (s.health = .ready →
        s.apiReady = true ∧ s.networkVerified = true ∧ s.programReady = true ∧
          s.pollerReady = true ∧ (s.fcmReady = true ∨ s.fcmWaived = true) ∧
          (s.executorReady = true ∨ s.executorWaived = true)) ∧
      (∀ res, (s.setExecutor res).escalationReady = s.escalationReady) ∧
      (∀ res, (s.setProgram res).escalationReady = s.escalationReady) ∧
      (∀ e, s.pollerReady = true → (s.apply e).pollerReady = false →
        (∃ net nowMs, e = .applyNet net nowMs ∧ net.state ≠ .verified) ∨
          ∃ nowMs m t, e = .recordPollResult false nowMs m ∧ m.threshold = some t ∧
            t ≤ failureStreak (es ++ [e])) ∧
      ∀ e, s.pollerReady = false → (s.apply e).pollerReady = true →
        ∃ nowMs m, e = .recordPollResult true nowMs m ∧ s.networkVerified = true := by
  intro s
  have hsub : s.Subordinate := ReadinessState.after_subordinate _ _ es
  refine ⟨hsub.executor, hsub.poller, ReadinessState.health_ready,
    s.setExecutor_escalationReady, s.setProgram_escalationReady, fun e hup hdown => ?_,
    fun e hdown hup => ReadinessState.pollerReady_gained hdown hup⟩
  obtain ⟨net, nowMs, he, hnet⟩ | ⟨nowMs, m, t, he, hthreshold, ht⟩ :=
    ReadinessState.pollerReady_lost hup hdown
  · exact Or.inl ⟨net, nowMs, he, hnet⟩
  · refine Or.inr ⟨nowMs, m, t, he, hthreshold, ?_⟩
    have hstreak : failureStreak (es ++ [e]) = s.poller.consecutiveFailures + 1 := by
      rw [ReadinessState.after_consecutiveFailures, he]
      simp [failureStreak]
    rw [hstreak]
    exact_mod_cast ht

/-! ## The push transport -/

namespace Notify.Fcm

/-- What holds of the shared state, however the calls interleave. -/
structure FailsClosed (m : Fcm) : Prop where
  ready : m.fcmState.ready = true → m.fcmState.providerRejected = false
  observed : (m.notified.getLastD (false, "startup")).1 = m.fcmState.ready

theorem FailsClosed.turn {m m' : Fcm} {ended : Option SendEnd} (h : m.FailsClosed)
    (hturn : Turn m ended m') : m'.FailsClosed := by
  cases hturn with
  | quiet hstate hnotified _ =>
      refine ⟨?_, ?_⟩
      · rw [hstate]
        exact h.ready
      · rw [hnotified, hstate]
        exact h.observed
  | told hstate hnotified hready _ _ _ =>
      refine ⟨?_, ?_⟩
      · rw [hstate]
        exact hready
      · rw [hnotified, hstate, List.getLastD_concat]

/-- A rejected send keeps the transport down. -/
def Down (m : Fcm) : Prop := m.fcmState.ready = false ∧ m.fcmState.providerRejected = true

theorem Turn.down {m m' : Fcm} (h : Turn m (some .transportFailure) m') : m'.Down := by
  cases h with
  | quiet _ _ hend => exact absurd rfl hend
  | told hstate _ hready _ hfails _ =>
      have hrejected := hfails rfl
      rw [Down, hstate]
      refine ⟨eq_false_of_ne_true fun hup => ?_, hrejected⟩
      exact Bool.noConfusion ((hready hup).symm.trans hrejected)

theorem Down.turn {m m' : Fcm} {ended : Option SendEnd} (h : m.Down) (hturn : Turn m ended m')
    (hend : ended ≠ some .success) : m'.Down := by
  cases hturn with
  | quiet hstate _ _ => rwa [Down, hstate]
  | @told ready reason rejected hstate _ hready hrecovers _ _ =>
      have hrejected : rejected = true := by
        by_contra hclear
        rcases hrecovers (eq_false_of_ne_true hclear) with hclear | hsuccess
        · exact Bool.noConfusion (hclear.symm.trans h.2)
        · exact hend hsuccess
      rw [Down, hstate]
      refine ⟨eq_false_of_ne_true fun hup => ?_, hrejected⟩
      exact Bool.noConfusion ((hready hup).symm.trans hrejected)

theorem run_failsClosed (configured : String) (hs : List FcmHappening) :
    (Machine.run step (Fcm.start configured) hs).FailsClosed :=
  Machine.preserves (P := fun _ (m : Fcm) => m.FailsClosed) (fun _ m h hm _ => hm.turn (step_turn m h))
    Machine.along_true ⟨nofun, rfl⟩

theorem Down.run {m : Fcm} {hs : List FcmHappening} (h : m.Down)
    (hs' : Machine.Along step (fun m h => m.sendEnd h ≠ some .success) m hs) :
    (Machine.run step m hs).Down :=
  Machine.preserves (P := fun _ (m : Fcm) => m.Down) (fun _ m h hm hend => hm.turn (step_turn m h) hend)
    hs' h

end Notify.Fcm

/-- Probes and sends in every order: readiness fails closed, stays so after a send that
failed until one succeeds, and is what the observer was last told. -/
theorem fcm_fails_closed (configured : String) (hs : List FcmHappening) :
    let m := Machine.run Fcm.step (Fcm.start configured) hs
    (m.fcmState.ready = true → m.fcmState.providerRejected = false) ∧
      (∀ h hs', m.sendEnd h = some .transportFailure →
        Machine.Along Fcm.step (fun m h => m.sendEnd h ≠ some .success) (m.step h).1 hs' →
        (Machine.run Fcm.step (m.step h).1 hs').fcmState.ready = false) ∧
      (∀ h, m.sendEnd h = some .rejected ∨ m.sendEnd h = some .suppressed →
        (m.step h).1.fcmState = m.fcmState) ∧
      (m.notified.getLastD (false, "startup")).1 = m.fcmState.ready := by
  intro m
  have hclosed : m.FailsClosed := Fcm.run_failsClosed configured hs
  refine ⟨hclosed.ready, fun h hs' hfails halong => ?_, fun h hend => ?_, hclosed.observed⟩
  · have hdown : (m.step h).1.Down := (hfails ▸ Fcm.step_turn m h).down
    exact (hdown.run halong).1
  · cases Fcm.step_turn m h with
    | quiet hstate _ _ => exact hstate
    | told _ _ _ _ _ hsilent =>
        rcases hend with hend | hend
        · exact absurd hend hsilent.1
        · exact absurd hend hsilent.2

/-- The health report never disagrees with the transport: the observer is `setFcm`. -/
theorem fcm_mirrored (configured : String) (hs : List FcmHappening) (s : ReadinessState)
    (hstart : s.fcmReady = false) :
    let m := Machine.run Fcm.step (Fcm.start configured) hs
    (m.notified.foldl (fun s n => s.setFcm n.1 (some n.2)) s).fcmReady = m.fcmState.ready := by
  intro m
  rw [← (Fcm.run_failsClosed configured hs).observed]
  rcases List.eq_nil_or_concat m.notified with hnil | ⟨ns, n, hns⟩
  · change (m.notified.foldl _ s).fcmReady = (m.notified.getLastD _).1
    rw [hnil]
    exact hstart
  · change (m.notified.foldl _ s).fcmReady = (m.notified.getLastD _).1
    rw [hns, List.concat_eq_append, List.foldl_append, List.getLastD_concat]
    rfl

end DeadMansVault
