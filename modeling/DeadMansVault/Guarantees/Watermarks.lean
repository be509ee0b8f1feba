-- SUMMARY: The revisions that one device hands to the wallet only rise, whatever fails or overlaps.
import DeadMansVault.Device.Turns
import DeadMansVault.Guarantees.Revisions

/-!
# Watermarks

A registration stores its revision before it opens the wallet, and only one is in
flight. So the stored watermark bounds every revision that was handed out, and the
next one is above it. Nothing else writes the watermark, and a restart keeps it.
-/

namespace DeadMansVault.Device

/-! ## Revisions handed to the wallet -/

def Event.handedRevision (owner : String) : Event → Option Nat
  | handed fields => if fields.owner = owner then some fields.revision else none
  | _ => none

/-- The revisions of an owner's register messages with which the wallet was opened, in order. -/
def handedRevisions (owner : String) (es : List Event) : List Nat :=
  es.filterMap (·.handedRevision owner)

section

variable {φ ρ : Type} {owner : String}

theorem handedRevisions_append (es es' : List Event) :
    handedRevisions owner (es ++ es') = handedRevisions owner es ++ handedRevisions owner es' :=
  List.filterMap_append

@[simp] theorem handedRevisions_wrote [Awaits φ] (op : Operation φ) (result : WriteResult) :
    handedRevisions owner (op.wrote result) = [] := by
  rw [Operation.wrote]
  split
  · cases op.pending <;> rfl
  · rfl

@[simp] theorem handedRevisions_started [Awaits φ] (owner' : String) (next : Next φ ρ) :
    handedRevisions owner (next.started owner') = [] := by
  cases next with
  | wait phase =>
      rw [Next.started]
      cases Awaits.write phase <;> rfl
  | finish | threw => rfl

@[simp] theorem handedRevisions_deregReports (op : Operation DeregistrationPhase) (m : Moment) :
    handedRevisions owner (op.deregReports m) = [] := by
  rw [Operation.deregReports]
  split
  · split <;> rfl
  · rfl

@[simp] theorem handedRevisions_emits (current : Bool) (connectedOwner : Option String)
    (next : Next φ LifecycleState) : handedRevisions owner (next.emits current connectedOwner) = [] := by
  cases next with
  | finish state => cases current <;> rfl
  | wait | threw => rfl

end

/-! ## Steps that do not concern the watermark -/

/-- The registration in flight stays, and so does every watermark; the wallet is not opened with a
    register message. -/
structure App.Quiet (app : App) (r : App × List Event) : Prop where
  registration : r.1.registration = app.registration
  revision : ∀ owner, (r.1.settings owner).revision = (app.settings owner).revision
  handed : ∀ owner, handedRevisions owner r.2 = []

section Quiet

variable {deps : Deps} {app : App} {m : Moment}

theorem App.written_revision {φ : Type} [Awaits φ] {op : Operation φ} (result : WriteResult)
    (hwrite : ∀ n, Awaits.write op.phase ≠ some (.revision n)) (owner : String) :
    (app.written op result owner).revision = (app.settings owner).revision := by
  rw [written, put_apply]
  split
  next heq =>
    rw [heq]
    rcases op.settle_cases (app.settings op.owner) result with
      ⟨-, hsame⟩ | ⟨w, -, hw, -, -, hput⟩
    · rw [hsame]
    · rw [hput]
      cases w with
      | revision n => exact absurd hw (hwrite n)
      | deregPending time => cases time <;> rfl
      | success | clearDeregPending | closedVault | clearClosedVault | pending => rfl
  · rfl

theorem DeregistrationPhase.write_ne_revision (phase : DeregistrationPhase) (n : Nat) :
    phase.write ≠ some (.revision n) := by
  cases phase <;> exact nofun

theorem ClosurePhase.write_ne_revision (phase : ClosurePhase) (n : Nat) :
    phase.write ≠ some (.revision n) := by
  cases phase <;> exact nofun

theorem CheckPhase.write_ne_revision (phase : CheckPhase) (n : Nat) :
    phase.write ≠ some (.revision n) := by
  cases phase <;> exact nofun

theorem App.quiet_self (app : App) : app.Quiet (app, []) :=
  ⟨rfl, fun _ => rfl, fun _ => rfl⟩

theorem App.resumeDeregistration_quiet (deps : Deps) (app : App) (m : Moment)
    (op : Operation DeregistrationPhase) : app.Quiet (app.resumeDeregistration deps m op) where
  registration := rfl
  revision := by
    rw [resumeDeregistration_settings]
    exact App.written_revision m.write op.phase.write_ne_revision
  handed owner := by simp [resumeDeregistration, handedRevisions_append]

theorem App.resumeClosure_quiet (deps : Deps) (app : App) (m : Moment) (index : Nat)
    (op : Operation ClosurePhase) : app.Quiet (app.resumeClosure deps m index op) where
  registration := rfl
  revision := by
    rw [resumeClosure_settings]
    exact App.written_revision m.write op.phase.write_ne_revision
  handed owner := by simp [resumeClosure, handedRevisions_append]

theorem App.resumeCheck_quiet_revision (deps : Deps) (app : App) (m : Moment) (index : Nat)
    (check : Check) : app.Quiet (app.resumeCheck deps m index check) where
  registration := rfl
  revision := by
    rw [resumeCheck_settings]
    exact App.written_revision m.write check.phase.write_ne_revision
  handed owner := by simp [resumeCheck, handedRevisions_append]

theorem App.checkNow_quiet_revision (deps : Deps) (app : App) (connectedOwner : Option String) :
    app.Quiet (app.checkNow deps connectedOwner) := by
  rw [checkNow]
  split
  · exact ⟨rfl, fun _ => rfl, fun _ => rfl⟩
  · exact ⟨rfl, fun _ => rfl, fun owner => handedRevisions_emits _ connectedOwner _⟩

theorem App.land_quiet (app : App) {slot : Slot} (hslot : slot ≠ .registration) :
    app.Quiet (app.land slot) := by
  cases slot with
  | registration => exact absurd rfl hslot
  | deregistration =>
      rw [land]
      cases app.deregistration with
      | none => exact app.quiet_self
      | some op =>
          exact ⟨rfl, App.written_revision .stored op.phase.write_ne_revision,
            fun owner => handedRevisions_wrote op .stored⟩
  | closure index =>
      rw [land]
      cases app.closures[index]? with
      | none => exact app.quiet_self
      | some op =>
          exact ⟨rfl, App.written_revision .stored op.phase.write_ne_revision,
            fun owner => handedRevisions_wrote op .stored⟩
  | check index =>
      rw [land]
      cases app.checks[index]? with
      | none => exact app.quiet_self
      | some check =>
          exact ⟨rfl, App.written_revision .stored check.phase.write_ne_revision,
            fun owner => handedRevisions_wrote check.toOperation .stored⟩

theorem App.resume_quiet (deps : Deps) (app : App) (m : Moment) {slot : Slot}
    (hslot : slot ≠ .registration) : app.Quiet (app.resume deps m slot) := by
  cases slot with
  | registration => exact absurd rfl hslot
  | deregistration =>
      rw [resume]
      cases app.deregistration with
      | none => exact app.quiet_self
      | some op => exact app.resumeDeregistration_quiet deps m op
  | closure index =>
      rw [resume]
      cases app.closures[index]? with
      | none => exact app.quiet_self
      | some op => exact app.resumeClosure_quiet deps m index op
  | check index =>
      rw [resume]
      cases app.checks[index]? with
      | none => exact app.quiet_self
      | some check => exact app.resumeCheck_quiet_revision deps m index check

theorem App.deregister_quiet (deps : Deps) (app : App) (input : DeregisterInput) :
    app.Quiet (app.deregister deps input, []) := by
  rw [deregister]
  split
  · exact ⟨rfl, fun _ => rfl, fun _ => rfl⟩
  · exact app.quiet_self

theorem App.recordVaultClosure_quiet (deps : Deps) (app : App) (input : VaultClosureInput) :
    app.Quiet (app.recordVaultClosure deps input, []) := by
  rw [recordVaultClosure]
  split
  · exact ⟨rfl, fun _ => rfl, fun _ => rfl⟩
  · exact app.quiet_self

end Quiet

/-! ## Invariant -/

/-- A revision that was chosen but not handed out yet is above those that were, and no greater one
    is stored. -/
def RegistrationPhase.Fresh (handed : List Nat) (stored : Stored Nat) (landed : Bool) :
    RegistrationPhase → Prop
  | storeRevision _ _ _ revision =>
    (∀ r ∈ handed, r < revision) ∧ (∀ n, stored = .value n → n ≤ revision) ∧
      (landed = true → stored = .value revision)
  | hash _ _ _ revision _ => (∀ r ∈ handed, r < revision) ∧ stored = .value revision
  | _ => True

structure App.Rising (owner : String) (es : List Event) (app : App) : Prop where
  increasing : (handedRevisions owner es).Pairwise (· < ·)
  stored : ∀ r ∈ handedRevisions owner es, ∃ n, (app.settings owner).revision = .value n ∧ r ≤ n
  own : ∀ op, app.registration = some op → op.phase.owner = op.owner
  fresh : ∀ op, app.registration = some op → op.owner = owner →
    op.phase.Fresh (handedRevisions owner es) (app.settings owner).revision op.landed

section Rising

variable {deps : Deps} {app : App} {m : Moment} {owner : String} {es : List Event}

theorem App.start_rising (settings : String → Settings) (owner : String) :
    (App.start settings).Rising owner [] where
  increasing := .nil
  stored _ hr := absurd hr List.not_mem_nil
  own := nofun
  fresh := nofun

theorem App.Rising.quiet {r : App × List Event} (h : app.Rising owner es) (hr : app.Quiet r) :
    r.1.Rising owner (es ++ r.2) := by
  have hsame : handedRevisions owner (es ++ r.2) = handedRevisions owner es := by
    rw [handedRevisions_append, hr.handed, List.append_nil]
  constructor
  · rw [hsame]
    exact h.increasing
  · rw [hsame, hr.revision]
    exact h.stored
  · rw [hr.registration]
    exact h.own
  · rw [hsame, hr.registration, hr.revision]
    exact h.fresh

/-- The process begins again; what it had in flight is gone. -/
theorem App.Rising.restart (h : app.Rising owner es) :
    (App.start app.settings).Rising owner es where
  increasing := h.increasing
  stored := h.stored
  own := nofun
  fresh := nofun

theorem App.Rising.register (h : app.Rising owner es) (input : RegistrationInput) :
    (app.register deps input).Rising owner es := by
  rw [App.register]
  split
  next phase _ hphase =>
    obtain ⟨vault, stage1, stage2, stage3, -, -, rfl⟩ := Deps.startRegistration_wait hphase
    exact ⟨h.increasing, h.stored, fun op heq => Option.some.inj heq ▸ rfl,
      fun op heq _ => Option.some.inj heq ▸ trivial⟩
  · exact h

/-- A registration writes the watermark of its owner, and only where it stores its revision. -/
theorem App.written_watermark (app : App) (op : Operation RegistrationPhase) (result : WriteResult)
    (owner : String) :
    (app.written op result owner).revision = (app.settings owner).revision ∨
    ∃ input token nonce revision, op.phase = .storeRevision input token nonce revision ∧
      op.owner = owner ∧ (app.written op result owner).revision = .value revision := by
  rw [written, put_apply]
  split
  next heq =>
    rw [heq]
    rcases op.settle_cases (app.settings op.owner) result with
      ⟨-, hsame⟩ | ⟨w, -, hw, -, -, hput⟩
    · exact .inl (by rw [hsame])
    · rw [hput]
      cases hphase : op.phase with
      | storeRevision input token nonce revision =>
          rw [hphase] at hw
          obtain rfl := Option.some.inj hw
          exact .inr ⟨input, token, nonce, revision, rfl, rfl, rfl⟩
      | storeSuccess | clearClosedVault =>
          rw [hphase] at hw
          obtain rfl := Option.some.inj hw
          exact .inl rfl
      | deviceToken | readRevision | hash | sign | post =>
          rw [hphase] at hw
          cases hw
  · exact .inl rfl

theorem App.written_kept (app : App) (op : Operation RegistrationPhase) (result : WriteResult)
    (owner : String)
    (hphase : ∀ input token nonce revision, op.phase ≠ .storeRevision input token nonce revision) :
    (app.written op result owner).revision = (app.settings owner).revision := by
  rcases app.written_watermark op result owner with
    hkept | ⟨input, token, nonce, revision, hother, -, -⟩
  · exact hkept
  · exact absurd hother (hphase input token nonce revision)

/-- Once its write is made, a registration's revision is the watermark. -/
theorem App.written_stored {op : Operation RegistrationPhase} {result : WriteResult}
    {input : ValidRegistration} {token nonce : String} {revision : Nat}
    (hphase : op.phase = .storeRevision input token nonce revision) (hlands : result.lands = true)
    (hlanded : op.landed = true → (app.settings op.owner).revision = .value revision) :
    (app.written op result op.owner).revision = .value revision := by
  rw [written, put_apply, if_pos rfl, Operation.pending]
  cases hop : op.landed with
  | true => exact hlanded hop
  | false =>
      have hwrite : Awaits.write op.phase = some (.revision revision) := by
        rw [hphase]
        rfl
      rw [if_neg Bool.false_ne_true, hwrite, Settings.settle, Settings.write, if_pos hlands]
      rfl

/-- A stored watermark of the app is not lowered, and still bounds what was handed out. -/
theorem App.Rising.written {op : Operation RegistrationPhase} (h : app.Rising owner es)
    (hop : app.registration = some op) (result : WriteResult) {n : Nat}
    (hn : (app.settings owner).revision = .value n) :
    ∃ n', (app.written op result owner).revision = .value n' ∧ n ≤ n' := by
  rcases app.written_watermark op result owner with
    hsame | ⟨input, token, nonce, revision, hphase, howner, hrevision⟩
  · exact ⟨n, hsame.trans hn, Nat.le_refl n⟩
  · have hfresh := h.fresh op hop howner
    rw [hphase] at hfresh
    exact ⟨revision, hrevision, hfresh.2.1 n hn⟩

theorem App.Rising.written_stored {op : Operation RegistrationPhase} (h : app.Rising owner es)
    (hop : app.registration = some op) (result : WriteResult) {r : Nat}
    (hr : r ∈ handedRevisions owner es) :
    ∃ n, (app.written op result owner).revision = .value n ∧ r ≤ n := by
  obtain ⟨n, hn, hle⟩ := h.stored r hr
  obtain ⟨n', hn', hle'⟩ := h.written hop result hn
  exact ⟨n', hn', Nat.le_trans hle hle'⟩

theorem App.Rising.land (h : app.Rising owner es) (slot : Slot) :
    (app.land slot).1.Rising owner (es ++ (app.land slot).2) := by
  rcases eq_or_ne slot .registration with rfl | hslot
  · rw [App.land]
    cases hop : app.registration with
    | none =>
        rw [List.append_nil]
        exact h
    | some op =>
        have hsame : handedRevisions owner (es ++ op.wrote .stored) = handedRevisions owner es := by
          rw [handedRevisions_append, handedRevisions_wrote, List.append_nil]
        refine ⟨hsame ▸ h.increasing, ?_, ?_, ?_⟩
        · rw [hsame]
          exact fun r hr => h.written_stored hop .stored hr
        · intro op' heq
          obtain rfl := Option.some.inj heq
          exact h.own op hop
        · intro op' heq howner
          obtain rfl := Option.some.inj heq
          have hfresh := h.fresh op hop howner
          rw [hsame]
          cases hphase : op.phase with
          | storeRevision input token nonce revision =>
              rw [hphase] at hfresh
              have hstored : (app.written op .stored owner).revision = .value revision :=
                howner ▸ App.written_stored hphase rfl (howner ▸ hfresh.2.2)
              refine ⟨hfresh.1, fun n hn => ?_, fun _ => hstored⟩
              cases hstored.symm.trans hn
              exact Nat.le_refl _
          | hash input token nonce revision timestamp =>
              rw [hphase] at hfresh
              have hkept := app.written_kept op .stored owner (by rw [hphase]; exact nofun)
              exact ⟨hfresh.1, hkept.trans hfresh.2⟩
          | deviceToken | readRevision | sign | post | storeSuccess | clearClosedVault => trivial
  · exact h.quiet (app.land_quiet hslot)

theorem handedRevisions_sign (op : Operation RegistrationPhase) (m : Moment) (token : String)
    (fields : RegisterFields) :
    handedRevisions owner (op.reports m (.wait (.sign token fields))) =
      if fields.owner = owner then [fields.revision] else [] := by
  rw [Operation.reports, handedRevisions, List.filterMap_cons, Event.handedRevision]
  split
  next hnone =>
    split at hnone
    · cases hnone
    next hne =>
      rw [if_neg hne]
      rfl
  next revision hsome =>
    split at hsome
    next heq =>
      cases hsome
      rw [if_pos heq]
      rfl
    · cases hsome

theorem handedRevisions_reports {next : RegistrationNext} (op : Operation RegistrationPhase)
    (m : Moment) (h : ∀ token fields, next ≠ .wait (.sign token fields)) :
    handedRevisions owner (op.reports m next) = [] := by
  rw [Operation.reports.eq_def]
  split
  next token fields => exact absurd rfl (h token fields)
  · split
    · split <;> rfl
    · rfl

/-- A turn of the registration after which no more has been handed out. -/
theorem App.Rising.turn {r : App × List Event} {op : Operation RegistrationPhase}
    (h : app.Rising owner es) (hop : app.registration = some op)
    (hsettings : r.1.settings = app.written op m.write)
    (hhanded : handedRevisions owner r.2 = [])
    (hown : ∀ op', r.1.registration = some op' → op'.phase.owner = op'.owner)
    (hfresh : ∀ op', r.1.registration = some op' → op'.owner = owner →
      op'.phase.Fresh (handedRevisions owner es) (app.written op m.write owner).revision op'.landed) :
    r.1.Rising owner (es ++ r.2) := by
  have hsame : handedRevisions owner (es ++ r.2) = handedRevisions owner es := by
    rw [handedRevisions_append, hhanded, List.append_nil]
  refine ⟨hsame ▸ h.increasing, ?_, hown, ?_⟩
  · rw [hsame, hsettings]
    exact fun r hr => h.written_stored hop m.write hr
  · rw [hsame, hsettings]
    exact hfresh

/-- The revision that a registration is about to store, or to hand out, comes next. -/
theorem RegistrationPhase.Goes.fresh {op : Operation RegistrationPhase} {phase : RegistrationPhase}
    (hgoes : op.phase.Goes deps m (app.settings op.owner) phase) (h : app.Rising owner es)
    (hop : app.registration = some op) (howner : op.owner = owner) :
    phase.Fresh (handedRevisions owner es) (app.written op m.write owner).revision false := by
  have hfresh := h.fresh op hop howner
  cases hphase : op.phase with
  | readRevision input token nonce =>
      rw [hphase] at hgoes
      cases hgoes with
      | revision hrevision =>
          rw [howner] at hrevision
          obtain ⟨-, -, hgt⟩ := computeNextRevision_gt hrevision
          have hkept := app.written_kept op m.write owner (by rw [hphase]; exact nofun)
          refine ⟨fun r hr => ?_, fun n hn => ?_, nofun⟩
          · obtain ⟨n, hn, hle⟩ := h.stored r hr
            exact Nat.lt_of_le_of_lt hle (hgt n hn)
          · exact Nat.le_of_lt (hgt n (hkept ▸ hn))
  | storeRevision input token nonce revision =>
      rw [hphase] at hgoes hfresh
      cases hgoes with
      | stored hok =>
          have hlands : m.write.lands = true := by
            cases hwrite : m.write with
            | stored => rfl
            | failed landed => cases hwrite ▸ hok
          exact ⟨hfresh.1, howner ▸ App.written_stored hphase hlands (howner ▸ hfresh.2.2)⟩
  | deviceToken | hash | sign | post | storeSuccess =>
      rw [hphase] at hgoes
      cases hgoes
      trivial
  | clearClosedVault =>
      rw [hphase] at hgoes
      cases hgoes

/-- The turn that opens the wallet. -/
theorem App.Rising.hand {r : App × List Event} {op : Operation RegistrationPhase}
    {input : ValidRegistration} {token token' nonce : String} {revision timestamp : Nat}
    {fields : RegisterFields} (h : app.Rising owner es) (hop : app.registration = some op)
    (hphase : op.phase = .hash input token nonce revision timestamp) (howner : op.owner = owner)
    (hsettings : r.1.settings = app.written op m.write)
    (hhanded : handedRevisions owner r.2 = [revision])
    (hregistration : r.1.registration = some ⟨op.owner, .sign token' fields, false⟩)
    (hfields : fields.owner = owner) : r.1.Rising owner (es ++ r.2) := by
  have hfresh := h.fresh op hop howner
  rw [hphase] at hfresh
  have hkept := app.written_kept op m.write owner (by rw [hphase]; exact nofun)
  have hnow : handedRevisions owner (es ++ r.2) = handedRevisions owner es ++ [revision] := by
    rw [handedRevisions_append, hhanded]
  refine ⟨?_, ?_, ?_, ?_⟩
  · rw [hnow, List.pairwise_append]
    refine ⟨h.increasing, List.pairwise_singleton _ _, fun r hr r' hr' => ?_⟩
    rw [List.mem_singleton.mp hr']
    exact hfresh.1 r hr
  · rw [hnow, hsettings]
    intro r hr
    rcases List.mem_append.mp hr with hold | hnew
    · exact h.written_stored hop m.write hold
    · rw [List.mem_singleton.mp hnew]
      exact ⟨revision, hkept.trans hfresh.2, Nat.le_refl revision⟩
  · intro op' heq
    obtain rfl := Option.some.inj (hregistration.symm.trans heq)
    exact hfields.trans howner.symm
  · intro op' heq _
    obtain rfl := Option.some.inj (hregistration.symm.trans heq)
    trivial

theorem App.Rising.resumeRegistration {op : Operation RegistrationPhase}
    (h : app.Rising owner es) (hop : app.registration = some op) :
    (app.resumeRegistration deps m op).1.Rising owner
      (es ++ (app.resumeRegistration deps m op).2) := by
  have hsettings := app.resumeRegistration_settings deps m op
  have hhanded : handedRevisions owner (app.resumeRegistration deps m op).2 =
      handedRevisions owner (op.reports m (op.phase.turn deps m (app.settings op.owner)).2) := by
    simp [App.resumeRegistration, handedRevisions_append]
  have hregistration : (app.resumeRegistration deps m op).1.registration =
      op.next (op.phase.turn deps m (app.settings op.owner)).2 := rfl
  generalize app.resumeRegistration deps m op = r at *
  cases hnext : (op.phase.turn deps m (app.settings op.owner)).2 with
  | finish | threw =>
      rw [hnext] at hhanded hregistration
      refine h.turn hop hsettings (hhanded.trans (handedRevisions_reports op m nofun)) ?_ ?_
      · rw [hregistration]
        exact nofun
      · rw [hregistration]
        exact nofun
  | wait phase =>
      rw [hnext] at hhanded hregistration
      have hgoes := RegistrationPhase.turn_goes hnext
      have hown : phase.owner = op.owner := hgoes.owner.trans (h.own op hop)
      by_cases hsign : ∃ token fields, phase = .sign token fields
      · obtain ⟨token, fields, rfl⟩ := hsign
        rw [handedRevisions_sign] at hhanded
        cases hphase : op.phase with
        | hash input token nonce revision timestamp =>
            rw [hphase] at hgoes
            cases hgoes
            split at hhanded
            next howner =>
              exact h.hand hop hphase (hown.symm.trans howner) hsettings hhanded hregistration
                howner
            next hother =>
              refine h.turn hop hsettings hhanded ?_ ?_
              · rw [hregistration]
                exact fun op' heq => Option.some.inj heq ▸ hown
              · rw [hregistration]
                exact fun op' heq howner => by
                  obtain rfl := Option.some.inj heq
                  exact absurd (hown.trans howner) hother
        | deviceToken | readRevision | storeRevision | sign | post | storeSuccess
            | clearClosedVault =>
            rw [hphase] at hgoes
            cases hgoes
      · refine h.turn hop hsettings ?_ ?_ ?_
        · refine hhanded.trans (handedRevisions_reports op m fun token fields heq => ?_)
          exact hsign ⟨token, fields, Next.wait.inj heq⟩
        · rw [hregistration]
          exact fun op' heq => Option.some.inj heq ▸ hown
        · rw [hregistration]
          exact fun op' heq howner => by
            obtain rfl := Option.some.inj heq
            exact hgoes.fresh h hop howner

theorem App.Rising.step (h : app.Rising owner es) (deps : Deps) (happening : Happening) :
    (app.step deps happening).1.Rising owner (es ++ (app.step deps happening).2) := by
  cases happening with
  | register input =>
      rw [App.step, List.append_nil]
      exact h.register input
  | deregister input => exact h.quiet (app.deregister_quiet deps input)
  | recordVaultClosure input => exact h.quiet (app.recordVaultClosure_quiet deps input)
  | checkNow connectedOwner => exact h.quiet (app.checkNow_quiet_revision deps connectedOwner)
  | invalidate | dispose => exact h.quiet ⟨rfl, fun _ => rfl, fun _ => rfl⟩
  | resume slot m =>
      rcases eq_or_ne slot .registration with rfl | hslot
      · rw [App.step, App.resume]
        cases hop : app.registration with
        | none => exact h.quiet app.quiet_self
        | some op => exact h.resumeRegistration hop
      · exact h.quiet (app.resume_quiet deps m hslot)
  | land slot => exact h.land slot
  | restart =>
      rw [App.step, List.append_nil]
      exact h.restart

/-- No step lowers a stored watermark, or deletes it. -/
theorem App.Rising.step_watermark (h : app.Rising owner es) (happening : Happening) {n : Nat}
    (hn : (app.settings owner).revision = .value n) :
    ∃ n', ((app.step deps happening).1.settings owner).revision = .value n' ∧ n ≤ n' := by
  have hquiet : ∀ {r : App × List Event}, app.Quiet r →
      ∃ n', (r.1.settings owner).revision = .value n' ∧ n ≤ n' :=
    fun hr => ⟨n, (hr.revision owner).trans hn, Nat.le_refl n⟩
  cases happening with
  | register input =>
      rw [App.step, App.register]
      split
      · exact ⟨n, hn, Nat.le_refl n⟩
      · exact ⟨n, hn, Nat.le_refl n⟩
  | deregister input => exact hquiet (app.deregister_quiet deps input)
  | recordVaultClosure input => exact hquiet (app.recordVaultClosure_quiet deps input)
  | checkNow connectedOwner => exact hquiet (app.checkNow_quiet_revision deps connectedOwner)
  | invalidate | dispose | restart => exact ⟨n, hn, Nat.le_refl n⟩
  | resume slot m =>
      rcases eq_or_ne slot .registration with rfl | hslot
      · rw [App.step, App.resume]
        cases hop : app.registration with
        | none => exact hquiet app.quiet_self
        | some op =>
            dsimp only
            rw [App.resumeRegistration_settings]
            exact h.written hop m.write hn
      · exact hquiet (app.resume_quiet deps m hslot)
  | land slot =>
      rcases eq_or_ne slot .registration with rfl | hslot
      · rw [App.step, App.land]
        cases hop : app.registration with
        | none => exact hquiet app.quiet_self
        | some op => exact h.written hop .stored hn
      · exact hquiet (app.land_quiet hslot)

theorem App.Rising.handed_stored {op : Operation RegistrationPhase} (h : app.Rising owner es)
    (hop : app.registration = some op) {r : Nat}
    (hr : r ∈ handedRevisions owner
      (op.reports m (op.phase.turn deps m (app.settings op.owner)).2)) :
    (app.settings owner).revision = .value r := by
  by_cases hsign : ∃ token fields,
      (op.phase.turn deps m (app.settings op.owner)).2 = .wait (.sign token fields)
  · obtain ⟨token, fields, hnext⟩ := hsign
    have hgoes := RegistrationPhase.turn_goes hnext
    have hown : fields.owner = op.owner := hgoes.owner.trans (h.own op hop)
    rw [hnext, handedRevisions_sign] at hr
    split at hr
    next howner =>
      have hfresh := h.fresh op hop (hown.symm.trans howner)
      cases hphase : op.phase with
      | hash input token nonce revision timestamp =>
          rw [hphase] at hgoes hfresh
          cases hgoes
          rw [List.mem_singleton.mp hr]
          exact hfresh.2
      | deviceToken | readRevision | storeRevision | sign | post | storeSuccess
          | clearClosedVault =>
          rw [hphase] at hgoes
          cases hgoes
    · cases hr
  · rw [handedRevisions_reports op m fun token fields heq => hsign ⟨token, fields, heq⟩] at hr
    cases hr

/-- What is handed out at a step was stored before it. -/
theorem App.Rising.step_handed (h : app.Rising owner es) (happening : Happening) {r : Nat}
    (hr : r ∈ handedRevisions owner (app.step deps happening).2) :
    (app.settings owner).revision = .value r := by
  have hquiet : ∀ {r' : App × List Event}, app.Quiet r' → r ∉ handedRevisions owner r'.2 :=
    fun hr' => (hr'.handed owner).symm ▸ List.not_mem_nil
  cases happening with
  | register input => cases hr
  | deregister input => exact absurd hr (hquiet (app.deregister_quiet deps input))
  | recordVaultClosure input => exact absurd hr (hquiet (app.recordVaultClosure_quiet deps input))
  | checkNow connectedOwner =>
      exact absurd hr (hquiet (app.checkNow_quiet_revision deps connectedOwner))
  | invalidate | dispose | restart => cases hr
  | land slot =>
      rcases eq_or_ne slot .registration with rfl | hslot
      · rw [App.step, App.land] at hr
        cases hop : app.registration with
        | none =>
            rw [hop] at hr
            cases hr
        | some op =>
            rw [hop] at hr
            dsimp only at hr
            rw [handedRevisions_wrote] at hr
            cases hr
      · exact absurd hr (hquiet (app.land_quiet hslot))
  | resume slot m =>
      rcases eq_or_ne slot .registration with rfl | hslot
      · rw [App.step, App.resume] at hr
        cases hop : app.registration with
        | none =>
            rw [hop] at hr
            cases hr
        | some op =>
            rw [hop] at hr
            have hreports : r ∈ handedRevisions owner
                (op.reports m (op.phase.turn deps m (app.settings op.owner)).2) := by
              simpa [App.resumeRegistration, handedRevisions_append] using hr
            exact h.handed_stored hop hreports
      · exact absurd hr (hquiet (app.resume_quiet deps m hslot))

end Rising

/-! ## Every run -/

theorem App.run_rising (deps : Deps) (settings : String → Settings) (owner : String)
    (hs : List Happening) :
    ((App.start settings).run deps hs).Rising owner ((App.start settings).events deps hs) :=
  Machine.preserves (P := fun es (app : App) => app.Rising owner es) (fun _ _ h hes _ => hes.step deps h)
    Machine.along_true (App.start_rising settings owner)

theorem mem_handedRevisions {fields : RegisterFields} {es : List Event} (h : .handed fields ∈ es) :
    fields.revision ∈ handedRevisions fields.owner es := by
  rw [handedRevisions, List.mem_filterMap]
  exact ⟨.handed fields, h, by rw [Event.handedRevision, if_pos rfl]⟩

/-- The server refuses a revision as stale only if its row has one that is no smaller. -/
theorem applySignedRegistration_not_stale {dbFails : Bool} {store : Notify.Store}
    {cmd : Notify.SignedRegistration}
    (h : ∀ row, store.getRegistration cmd.vault = some row → row.registrationRevision < cmd.revision) :
    (Notify.applySignedRegistration dbFails cmd store).2.code ≠ .staleRevision := by
  rcases Notify.applySignedRegistration_cases dbFails store cmd with
    ⟨hr, -⟩ | ⟨-, hr⟩ | ⟨-, ⟨hnone, hr⟩ | ⟨row, hrow, ⟨-, hr⟩ | ⟨-, hstale, -⟩ | ⟨-, -, hr⟩⟩⟩
  · rw [hr]
    exact nofun
  · rw [hr]
    exact nofun
  · rw [hr]
    exact nofun
  · rw [hr]
    exact nofun
  · exact absurd (h row hrow) (Nat.not_lt.mpr hstale)
  · rw [hr]
    exact nofun

/-- After any run on a device's storage, and whatever happens next: the revisions of an owner that
    were handed to the wallet rise, each was stored before, the watermark is neither lowered nor
    deleted, and no row that an earlier registration left makes a later one stale. -/
theorem handed_revisions_rise (deps : Deps) (settings : String → Settings) (owner : String)
    (hs : List Happening) (h : Happening) :
    let before := (App.start settings).run deps hs
    let past := (App.start settings).events deps hs
    (handedRevisions owner (past ++ (before.step deps h).2)).Pairwise (· < ·) ∧
    (∀ n, (before.settings owner).revision = .value n →
      ∃ n', ((before.step deps h).1.settings owner).revision = .value n' ∧ n ≤ n') ∧
    ∀ fields, .handed fields ∈ (before.step deps h).2 → fields.owner = owner →
      (before.settings owner).revision = .value fields.revision ∧
      ∀ (dbFails : Bool) (store : Notify.Store) (cmd : Notify.SignedRegistration),
        cmd.revision = fields.revision →
        (∀ row, store.getRegistration cmd.vault = some row →
          row.registrationRevision ∈ handedRevisions owner past) →
        (Notify.applySignedRegistration dbFails cmd store).2.code ≠ .staleRevision := by
  intro before past
  have hrising : before.Rising owner past := App.run_rising deps settings owner hs
  have hincreasing := (hrising.step deps h).increasing
  refine ⟨hincreasing, fun n hn => hrising.step_watermark h hn, fun fields hfields howner => ?_⟩
  have hmem : fields.revision ∈ handedRevisions owner (before.step deps h).2 :=
    howner ▸ mem_handedRevisions hfields
  refine ⟨hrising.step_handed h hmem, fun dbFails store cmd hrevision hrows => ?_⟩
  refine applySignedRegistration_not_stale fun row hrow => ?_
  rw [hrevision]
  rw [handedRevisions_append] at hincreasing
  exact (List.pairwise_append.mp hincreasing).2.2 _ (hrows row hrow) _ hmem

example : handedRevisions sampleOwner ((App.start fun _ => .empty).events .sample
    (registrationSample ++ registrationSample)) = [1700000000000, 1700000000001] := by
  decide +kernel

end DeadMansVault.Device
