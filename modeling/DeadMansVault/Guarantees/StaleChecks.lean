-- SUMMARY: When a token check that was overtaken, or whose observer is gone, still writes.
import DeadMansVault.Device.App

/-!
# Stale checks

The generation test stands before every state that a check emits and before the
pending marker, but not before the other writes. A stale check therefore emits
nothing, and it calls `setSetting` exactly where it has found something to clear or
to repair: a closure tombstone, a deregistration marker, or that marker once its
repair is stored.
-/

namespace DeadMansVault.Device

/-! ## What a turn starts -/

/-- The turn goes on to one of the writes that no generation test guards. -/
def CheckPhase.writesAnyway (parties : Parties) (m : Moment) (s : Settings) : CheckPhase → Bool
  | readClosedRecord tomb =>
    ((s.success.readable m.readFails).filter (·.isActive parties)).all tomb.isStale
  | readDeregPending => !m.readFails && decide (s.deregPending ≠ .absent)
  | storeTombstone _ => m.write.isOk
  | _ => false

theorem CheckNext.conclude_started (parties : Parties) (record : Option StoredRecord)
    (hash : Option String) (owner : String) :
    (CheckNext.conclude parties record hash).started owner = [] := by
  unfold CheckNext.conclude
  split
  · rfl
  · rfl

/-- A stale turn starts a write exactly where none is guarded. -/
theorem CheckPhase.turn_started (deps : Deps) (parties : Parties) (m : Moment) (s : Settings)
    (phase : CheckPhase) (owner : String) :
    (phase.turn deps parties false m s).2.started owner = [] ↔
      phase.writesAnyway parties m s = false := by
  cases phase with
  | readClosedVault =>
      refine ⟨fun _ => rfl, fun _ => ?_⟩
      rw [turn]
      split
      · rfl
      · split
        · rfl
        · rfl
  | readClosedRecord tomb =>
      rw [turn, writesAnyway]
      cases (s.success.readable m.readFails).filter (·.isActive parties) with
      | none => exact iff_of_false (List.cons_ne_nil _ _) Bool.false_ne_true.symm
      | some record =>
          dsimp only
          rw [Option.all_some]
          cases tomb.isStale record with
          | true => exact iff_of_false (List.cons_ne_nil _ _) Bool.false_ne_true.symm
          | false => exact ⟨fun _ => rfl, fun _ => rfl⟩
  | clearClosedVault => exact ⟨fun _ => rfl, fun _ => rfl⟩
  | readDeregPending =>
      rw [turn, writesAnyway]
      cases m.readFails with
      | true => exact ⟨fun _ => rfl, fun _ => rfl⟩
      | false =>
          cases s.deregPending with
          | absent => exact ⟨fun _ => rfl, fun _ => rfl⟩
          | corrupt => exact iff_of_false (List.cons_ne_nil _ _) Bool.false_ne_true.symm
          | value time => exact iff_of_false (List.cons_ne_nil _ _) Bool.false_ne_true.symm
  | storeTombstone tombstone =>
      rw [turn, writesAnyway]
      cases m.write.isOk with
      | true => exact iff_of_false (List.cons_ne_nil _ _) Bool.false_ne_true.symm
      | false => exact ⟨fun _ => rfl, fun _ => rfl⟩
  | clearDeregPending =>
      refine ⟨fun _ => rfl, fun _ => ?_⟩
      rw [turn]
      cases m.write.isOk with
      | true => rfl
      | false => rfl
  | readSuccess =>
      refine ⟨fun _ => rfl, fun _ => ?_⟩
      rw [turn]
      cases m.readFails with
      | true => rfl
      | false =>
          cases s.success with
          | absent | corrupt | value => rfl
  | deviceToken record =>
      refine ⟨fun _ => rfl, fun _ => ?_⟩
      rw [turn]
      split
      · split
        · exact CheckNext.conclude_started parties record none owner
        · rfl
      · exact CheckNext.conclude_started parties record none owner
  | hash record token =>
      exact ⟨fun _ => rfl, fun _ => CheckNext.conclude_started parties record _ owner⟩
  | readPending fingerprint =>
      refine ⟨fun _ => rfl, fun _ => ?_⟩
      rw [turn]
      split
      · rfl
      · rfl
  | storePending marker => exact ⟨fun _ => rfl, fun _ => rfl⟩

/-! ## Stale checks of the app -/

/-- A state is emitted, or `setSetting` is called. -/
def Event.isEffect : Event → Bool
  | emitted _ => true
  | started _ _ => true
  | _ => false

/-- What a check does here while it is stale has no effect. -/
structure App.StaleQuiet (deps : Deps) (app : App) (h : Happening) : Prop where
  /-- One that is started after the end of the observer. -/
  checkNow : ∀ connectedOwner, h = .checkNow connectedOwner → app.disposed = true →
    ∀ e ∈ (app.step deps h).2, e.isEffect = false
  resume : ∀ index m check, h = .resume (.check index) m → app.checks[index]? = some check →
    app.isCurrent check = false → ∀ e ∈ (app.step deps h).2, e.isEffect = false

/-- No stale check finds anything to clear or to repair here. -/
structure App.StaleIdle (app : App) (h : Happening) : Prop where
  resume : ∀ index m check, h = .resume (.check index) m → app.checks[index]? = some check →
    app.isCurrent check = false →
    check.phase.writesAnyway check.parties m (app.settings check.owner) = false

section

variable {φ : Type} {e : Event} {owner : String} {connectedOwner : Option String}

theorem Next.emits_stale {next : Next φ LifecycleState} (h : e ∈ next.emits false connectedOwner) :
    e.isEffect = false := by
  cases next with
  | finish state =>
      obtain rfl := List.mem_singleton.mp h
      rfl
  | wait | threw => cases h

theorem Operation.wrote_isEffect [Awaits φ] {op : Operation φ} {result : WriteResult}
    (h : e ∈ op.wrote result) : e.isEffect = false := by
  unfold wrote at h
  split at h
  · rw [Option.mem_toList, Option.map_eq_some_iff] at h
    obtain ⟨w, -, rfl⟩ := h
    rfl
  · cases h

theorem Next.started_isEffect {ρ : Type} [Awaits φ] {next : Next φ ρ}
    (h : e ∈ next.started owner) : e.isEffect = true := by
  cases next with
  | wait phase =>
      rw [started, Option.mem_toList, Option.map_eq_some_iff] at h
      obtain ⟨w, -, rfl⟩ := h
      rfl
  | finish | threw => cases h

end

theorem App.resumeCheck_quiet {deps : Deps} {app : App} {m : Moment} {index : Nat} {check : Check}
    (hstale : app.isCurrent check = false) :
    (∀ e ∈ (app.resumeCheck deps m index check).2, e.isEffect = false) ↔
      check.phase.writesAnyway check.parties m (app.settings check.owner) = false := by
  rw [← CheckPhase.turn_started deps check.parties m (app.settings check.owner) check.phase
    check.owner]
  unfold App.resumeCheck
  rw [hstale]
  constructor
  · intro hquiet
    rw [List.eq_nil_iff_forall_not_mem]
    intro e he
    have hnot := hquiet e (List.mem_append_left _ (List.mem_append_right _ he))
    rw [Next.started_isEffect he] at hnot
    cases hnot
  · intro hnone e he
    rcases List.mem_append.mp he with he | hemits
    · rcases List.mem_append.mp he with hwrote | hstarted
      · exact Operation.wrote_isEffect hwrote
      · exact absurd (hnone ▸ hstarted) List.not_mem_nil
    · exact Next.emits_stale hemits

theorem App.checkNow_quiet {deps : Deps} {app : App} {connectedOwner : Option String} {e : Event}
    (hdisposed : app.disposed = true) (he : e ∈ (app.checkNow deps connectedOwner).2) :
    e.isEffect = false := by
  unfold App.checkNow at he
  dsimp only at he
  split at he
  · cases he
  · rw [hdisposed] at he
    exact Next.emits_stale he

/-- In every run, stale checks have no effect at any step exactly if none of them finds, at any
    step, anything to clear or to repair. -/
theorem stale_checks_quiet (deps : Deps) (app : App) (hs : List Happening) :
    Machine.Along (App.step deps) (App.StaleQuiet deps) app hs ↔
      Machine.Along (App.step deps) App.StaleIdle app hs := by
  refine Machine.along_congr fun app h => ⟨fun hquiet => ⟨?_⟩, fun hidle => ⟨?_, ?_⟩⟩
  · rintro index m check rfl hcheck hstale
    have hnone := hquiet.resume index m check rfl hcheck hstale
    rw [App.step, App.resume, hcheck] at hnone
    exact (App.resumeCheck_quiet hstale).mp hnone
  · rintro connectedOwner rfl hdisposed e he
    exact App.checkNow_quiet hdisposed he
  · rintro index m check rfl hcheck hstale
    rw [App.step, App.resume, hcheck]
    exact (App.resumeCheck_quiet hstale).mpr (hidle.resume index m check rfl hcheck hstale)

/-- The storage after a deregistration whose tombstone could not be written. -/
def markedSample : Settings where
  revision := .value 1690000000000
  success := .value (.success
    { owner := sampleOwner
      vault := sampleVault
      revision := 1690000000000
      tokenFingerprint := "73fff793651a92729a8553521d5f1c55"
      stage1 := 60
      stage2 := 75
      stage3 := 90
      confirmedAt := some 1690000000
      cluster := expectedCluster
      programId := expectedProgramId })
  deregPending := .value 1690000100
  closedVault := .absent
  pending := .absent

/-- A check reads the marker while the owner registers again, and the app invalidates it. -/
def overtakenSample : List Happening :=
  [.checkNow (some sampleOwner), .resume (.check 0) .sample] ++ registrationSample ++ [.invalidate]

/-- The check then replaces the record of the new registration by a tombstone. -/
theorem stale_check_replaces_record :
    let app := App.start fun _ => markedSample
    let repair : Happening := .resume (.check 0) .sample
    ((app.run .sample overtakenSample).settings sampleOwner).success =
        .value (.success ((Deps.sample.registerFields
          ⟨sampleOwner, sampleVault, 60, 75, 90⟩ (Deps.sample.tokenHash "device-token")
            "2222222222222222222222" 1700000000000 1700000000).record (some 1700000000))) ∧
      ¬ Machine.Along (App.step .sample) (App.StaleQuiet .sample) app
        (overtakenSample ++ [repair]) ∧
      ((app.run .sample (overtakenSample ++ [repair, repair])).settings sampleOwner).success =
        .value (.tombstone (Deps.sample.repairTombstone ⟨sampleOwner, sampleVault⟩
          (some 1690000100))) := by
  refine ⟨by decide +kernel, fun halong => ?_, by decide +kernel⟩
  have hquiet := halong.at_step
  have heffect := hquiet.resume 0 .sample
    ⟨⟨sampleOwner, .readDeregPending, false⟩, sampleVault, 1⟩ rfl (by decide +kernel)
    (by decide +kernel)
    (.started sampleOwner (.success (.tombstone (Deps.sample.repairTombstone
      ⟨sampleOwner, sampleVault⟩ (some 1690000100))))) (by decide +kernel)
  cases heffect

end DeadMansVault.Device
