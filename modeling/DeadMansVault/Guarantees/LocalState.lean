-- SUMMARY: When the next check shows a registration that the server has accepted as enabled.
import DeadMansVault.Device.Standing

/-!
# Local state

Operations that do not overlap leave the settings in agreement with the standing
registration, unless one of three things happens: a record is written while the
marker of an earlier deregistration is still there; a cleanup that the server has
refused is taken for done on the strength of a closure from before the record; or a
closure is recorded over a tombstone that has no date. Without these, the next check
that can read the settings and the token finds the registration enabled.
-/

namespace DeadMansVault.Device

/-! ## Runs without overlap -/

/-- Nothing is in flight. -/
def App.isIdle (app : App) : Bool :=
  app.registration.isNone && app.deregistration.isNone && app.closures.isEmpty &&
    app.checks.isEmpty

/-- An operation starts once the last one has ended, for this owner, and finds no device token but
    this one. -/
def App.serial (owner token : String) (app : App) : Happening → Bool
  | .register input => app.isIdle && decide (input.owner = owner)
  | .deregister input => app.isIdle && decide (input.owner = owner)
  | .recordVaultClosure input => app.isIdle && decide (input.owner = owner)
  | .checkNow connectedOwner => app.isIdle && decide (connectedOwner = some owner)
  | .resume _ m =>
    match m.deviceToken with
    | some (some t) => decide (t = token)
    | _ => true
  | .land _ => true
  | .invalidate => true
  | .dispose => true
  | .restart => true

/-! ## The condition -/

/-- A write that the operation awaits reaches the storage here. -/
def Happening.lands (slot : Slot) : Happening → Bool
  | land slot' => decide (slot' = slot)
  | resume slot' m => decide (slot' = slot) && m.write.lands
  | _ => false

/-- Where the record of a registration is written, there is no marker of a deregistration. -/
def App.unmarked (owner : String) (app : App) (h : Happening) : Bool :=
  match app.registration with
  | some ⟨_, .storeSuccess _ _, false⟩ =>
    !h.lands .registration || decide ((app.settings owner).deregPending = .absent)
  | _ => true

/-- A refused cleanup is not taken for done while the closure is older than the record. -/
def App.unstale (owner : String) (app : App) (h : Happening) : Bool :=
  match app.deregistration, h with
  | some ⟨_, .post _ true _ _, _⟩, .resume .deregistration m =>
    m.delivery.deregisters || !m.delivery.ownershipFailed ||
      match (app.settings owner).closedVault, (app.settings owner).success with
      | .value tomb, .value record => !tomb.isStale record
      | _, _ => true
  | _, _ => true

/-- No closure is recorded over a tombstone without a date. -/
def App.dated (owner : String) (app : App) (h : Happening) : Bool :=
  match h, (app.settings owner).success with
  | .resume (.closure _) _, .value (.tombstone tombstone) =>
    (StoredRecord.tombstone tombstone).isDeregistered
  | _, _ => true

def App.tidy (owner : String) (app : App) (h : Happening) : Bool :=
  app.unmarked owner h && app.unstale owner h && app.dated owner h

/-! ## Phases of the operation in flight -/

def RegistrationPhase.Holds (deps : Deps) (owner token : String) (s : Settings) (landed : Bool) :
    RegistrationPhase → Prop
  | deviceToken _ => True
  | readRevision _ t _ => t = token ∧ token ≠ ""
  | storeRevision _ t _ revision =>
    (t = token ∧ token ≠ "") ∧ s.Below revision ∧ (landed = true → s.revision = .value revision)
  | hash _ t _ revision _ =>
    (t = token ∧ token ≠ "") ∧ s.Below revision ∧ s.revision = .value revision
  | sign _ fields | post _ fields _ =>
    (fields.deviceTokenHash = deps.tokenHash token ∧ token ≠ "") ∧ s.Below fields.revision ∧
      s.revision = .value fields.revision
  | storeSuccess _ record =>
    record.Genuine deps owner token ∧
      (landed = false → s.Below record.revision ∧ s.revision = .value record.revision)
  | clearClosedVault _ _ => True

structure Operation.Registers (deps : Deps) (owner token : String) (s : Settings)
    (op : Operation RegistrationPhase) : Prop where
  own : op.owner = owner
  phaseOwn : op.phase.owner = owner
  canonical : owner ≠ ""
  derived : ∃ vault, deps.deriveVault owner = some vault
  phase : op.phase.Holds deps owner token s op.landed

def DeregistrationPhase.Holds (now : Option SuccessRecord) (s : Settings) :
    DeregistrationPhase → Prop
  | readSuccess _ _ | readClosedVault _ _ _ => True
  | sign _ closureProven _ | post _ closureProven _ _ =>
    closureProven = true → ∃ tomb, s.closedVault = .value tomb
  | storeTombstone _ _ | storeMarker _ _ | clearClosedVault _ => now = none

def ClosurePhase.Holds (s : Settings) : ClosurePhase → Prop
  | readSuccess _ _ _ => True
  | storeClosedVault tomb =>
    ∃ prior n, tomb.priorRevision = some prior ∧ s.revision = .value n ∧ prior ≤ n

/-- At most one operation is in flight, and its phase agrees with the settings. -/
inductive Activity (deps : Deps) (owner token : String) (now : Option SuccessRecord) (s : Settings) :
    Option (Operation RegistrationPhase) → Option (Operation DeregistrationPhase) →
      List (Operation ClosurePhase) → List Check → Prop
  | idle : Activity deps owner token now s none none [] []
  | registration {op : Operation RegistrationPhase} :
      op.Registers deps owner token s → Activity deps owner token now s (some op) none [] []
  | deregistration {op : Operation DeregistrationPhase} :
      op.owner = owner → op.phase.Holds now s →
      Activity deps owner token now s none (some op) [] []
  | closure {op : Operation ClosurePhase} :
      op.owner = owner → op.phase.Holds s → Activity deps owner token now s none none [op] []
  | check {check : Check} :
      check.owner = owner → (check.phase.repairs = true → now = none) →
      Activity deps owner token now s none none [] [check]

structure App.Local (deps : Deps) (owner token : String) (es : List Event) (app : App) : Prop where
  coherent : (app.settings owner).Coherent deps owner token (standing owner es)
  activity : Activity deps owner token (standing owner es) (app.settings owner) app.registration
    app.deregistration app.closures app.checks

/-! ## Registration -/

section Registration

variable {deps : Deps} {owner token : String} {now : Option SuccessRecord} {s : Settings}
  {m : Moment} {op : Operation RegistrationPhase}

theorem Settings.settle_of_no_write {φ : Type} [Awaits φ] {op : Operation φ}
    (h : Awaits.write op.phase = none) (s : Settings) (result : WriteResult) :
    s.settle op.pending result = s := by
  rcases op.settle_cases s result with ⟨-, hsame⟩ | ⟨w, -, hw, -, -, -⟩
  · exact hsame
  · cases h.symm.trans hw

theorem Operation.Registers.fits {w : Write} (h : op.Registers deps owner token s)
    (hlanded : op.landed = false) (hw : Awaits.write op.phase = some w)
    (hunmarked : ∀ created record, op.phase = .storeSuccess created record →
      s.deregPending = .absent) : w.Fits deps owner token now s := by
  have hphase := h.phase
  cases heq : op.phase with
  | storeRevision input t nonce revision =>
      rw [heq] at hw hphase
      cases hw
      exact hphase.2.1
  | storeSuccess created record =>
      rw [heq] at hw hphase
      cases hw
      obtain ⟨hbelow, hrevision⟩ := hphase.2 hlanded
      exact ⟨hphase.1, hbelow, hrevision, hunmarked created record heq⟩
  | clearClosedVault =>
      rw [heq] at hw
      cases hw
      trivial
  | deviceToken | readRevision | hash | sign | post =>
      rw [heq] at hw
      cases hw

/-- Storing the revision changes nothing that it is compared with. -/
theorem Settings.Below.settle {result : WriteResult} {revision n : Nat} (h : s.Below n)
    (hwrite : Awaits.write op.phase = some (.revision revision)) :
    (s.settle op.pending result).Below n := by
  rcases op.settle_cases s result with ⟨-, hsame⟩ | ⟨w, -, hw, -, -, hput⟩
  · rwa [hsame]
  · rw [hput]
    cases hwrite.symm.trans hw
    exact ⟨h.record, h.closure⟩

theorem Settings.settle_revision {result : WriteResult} {revision : Nat}
    (hwrite : Awaits.write op.phase = some (.revision revision)) (hlands : result.lands = true)
    (hlanded : op.landed = true → s.revision = .value revision) :
    (s.settle op.pending result).revision = .value revision := by
  rw [Operation.pending]
  cases hop : op.landed with
  | true => exact hlanded hop
  | false =>
      rw [if_neg Bool.false_ne_true, hwrite, Settings.settle, Settings.write, if_pos hlands]
      rfl

theorem Operation.Registers.land (h : op.Registers deps owner token s) :
    ({ op with landed := true } : Operation RegistrationPhase).Registers deps owner token
      (s.settle op.pending .stored) := by
  refine ⟨h.own, h.phaseOwn, h.canonical, h.derived, ?_⟩
  have hphase := h.phase
  cases heq : op.phase with
  | storeRevision input t nonce revision =>
      rw [heq] at hphase
      have hwrite : Awaits.write op.phase = some (.revision revision) := by
        rw [heq]
        rfl
      exact ⟨hphase.1, hphase.2.1.settle hwrite, fun _ =>
        Settings.settle_revision hwrite rfl hphase.2.2⟩
  | storeSuccess created record =>
      rw [heq] at hphase
      exact ⟨hphase.1, nofun⟩
  | deviceToken | clearClosedVault => trivial
  | readRevision | hash | sign | post =>
      have hwrite : Awaits.write op.phase = none := by
        rw [heq]
        rfl
      rw [heq] at hphase
      rw [Settings.settle_of_no_write hwrite]
      exact hphase

theorem WriteResult.lands_of_isOk {result : WriteResult} (h : result.isOk = true) :
    result.lands = true := by
  cases result with
  | stored => rfl
  | failed landed => cases h

theorem Settings.Coherent.below (h : s.Coherent deps owner token now) {next : Nat}
    {nowMs : Option Int} (hnext : computeNextRevision s.revision nowMs = some next) :
    s.Below next := by
  obtain ⟨-, -, hgt⟩ := computeNextRevision_gt hnext
  constructor
  · intro record hrecord
    obtain ⟨n, hn, hle⟩ := h.record record hrecord
    exact Nat.lt_of_le_of_lt hle (hgt n hn)
  · intro tomb htomb
    obtain ⟨prior, n, hprior, hn, hle⟩ := h.closure tomb htomb
    exact ⟨prior, hprior, Nat.lt_of_le_of_lt hle (hgt n hn)⟩

theorem Operation.Registers.goes {phase : RegistrationPhase} (h : op.Registers deps owner token s)
    (hcoherent : s.Coherent deps owner token now)
    (htoken : ∀ t, m.deviceToken = some (some t) → t = token)
    (hgoes : op.phase.Goes deps m s phase) :
    (⟨op.owner, phase, false⟩ : Operation RegistrationPhase).Registers deps owner token
      (s.settle op.pending m.write) := by
  have hown := hgoes.owner.trans h.phaseOwn
  refine ⟨h.own, hown, h.canonical, h.derived, ?_⟩
  have hphase := h.phase
  cases heq : op.phase with
  | storeRevision input t nonce revision =>
      rw [heq] at hgoes hphase
      have hwrite : Awaits.write op.phase = some (.revision revision) := by
        rw [heq]
        rfl
      cases hgoes with
      | stored hok =>
          exact ⟨hphase.1, hphase.2.1.settle hwrite,
            Settings.settle_revision hwrite (WriteResult.lands_of_isOk hok) hphase.2.2⟩
  | storeSuccess created record =>
      rw [heq] at hgoes
      cases hgoes
      trivial
  | clearClosedVault =>
      rw [heq] at hgoes
      cases hgoes
  | deviceToken input =>
      rw [heq] at hgoes
      cases hgoes with
      | token hread hlength =>
          obtain rfl := htoken _ hread
          refine ⟨rfl, fun hempty => ?_⟩
          rw [hempty] at hlength
          exact absurd hlength (by decide)
  | readRevision input t nonce =>
      have hwrite : Awaits.write op.phase = none := by
        rw [heq]
        rfl
      rw [heq] at hgoes hphase
      rw [Settings.settle_of_no_write hwrite]
      cases hgoes with
      | revision hrevision => exact ⟨hphase, hcoherent.below hrevision, nofun⟩
  | hash input t nonce revision timestamp =>
      have hwrite : Awaits.write op.phase = none := by
        rw [heq]
        rfl
      rw [heq] at hgoes hphase
      rw [Settings.settle_of_no_write hwrite]
      obtain ⟨⟨rfl, havailable⟩, hbelow, hrevision⟩ := hphase
      cases hgoes
      exact ⟨⟨rfl, havailable⟩, hbelow, hrevision⟩
  | sign t fields =>
      have hwrite : Awaits.write op.phase = none := by
        rw [heq]
        rfl
      rw [heq] at hgoes hphase
      rw [Settings.settle_of_no_write hwrite]
      cases hgoes
      exact hphase
  | post t fields signature =>
      have hwrite : Awaits.write op.phase = none := by
        rw [heq]
        rfl
      rw [heq] at hgoes hphase
      rw [Settings.settle_of_no_write hwrite]
      obtain ⟨⟨hhash, havailable⟩, hbelow, hrevision⟩ := hphase
      cases hgoes with
      | accepted =>
          have hgenuine : (fields.record m.nowSec).Genuine deps owner token :=
            ⟨hown, h.canonical, h.derived, congrArg tokenFingerprint hhash, havailable⟩
          exact ⟨hgenuine, fun _ => ⟨hbelow, hrevision⟩⟩

end Registration

/-! ## Other operations -/

section Others

variable {deps : Deps} {owner token : String} {now : Option SuccessRecord} {s : Settings}
  {m : Moment} {result : WriteResult}

/-- A write that is neither of a record nor of a closure leaves the registration standing. -/
theorem standing_wrote {φ : Type} [Awaits φ] (owner : String) (result : WriteResult)
    (op : Operation φ) (now : Option SuccessRecord)
    (hrecord : ∀ record, Awaits.write op.phase ≠ some (.success (.success record)))
    (hclosure : ∀ tomb, Awaits.write op.phase ≠ some (.closedVault tomb)) :
    (op.wrote result).foldl (standingAfter owner) now = now := by
  rcases op.settle_cases Settings.empty result with ⟨hnone, -⟩ | ⟨w, -, hw, -, hwrote, -⟩
  · rw [hnone]
    rfl
  · rw [hwrote]
    cases w with
    | success stored =>
        cases stored with
        | success record => exact absurd hw (hrecord record)
        | tombstone tombstone => rfl
    | closedVault tomb => exact absurd hw (hclosure tomb)
    | revision | deregPending | clearDeregPending | clearClosedVault | pending => rfl

theorem DeregistrationPhase.write_keeps (phase : DeregistrationPhase) :
    (∀ record, phase.write ≠ some (.success (.success record))) ∧
      ∀ tomb, phase.write ≠ some (.closedVault tomb) := by
  cases phase <;> exact ⟨nofun, nofun⟩

theorem CheckPhase.write_keeps (phase : CheckPhase) :
    (∀ record, phase.write ≠ some (.success (.success record))) ∧
      ∀ tomb, phase.write ≠ some (.closedVault tomb) := by
  cases phase <;> exact ⟨nofun, nofun⟩

theorem DeregistrationPhase.Holds.fits {phase : DeregistrationPhase} {w : Write}
    (h : phase.Holds now s) (hw : phase.write = some w) : w.Fits deps owner token now s := by
  cases phase with
  | storeTombstone | storeMarker =>
      cases hw
      exact h
  | clearClosedVault =>
      cases hw
      trivial
  | readSuccess | readClosedVault | sign | post => cases hw

/-- Of the settings, only a closure that it has read matters to it. -/
theorem DeregistrationPhase.Holds.of_write {phase : DeregistrationPhase} {w : Write} {s' : Settings}
    (h : phase.Holds now s) (hw : phase.write = some w) : phase.Holds now s' := by
  cases phase with
  | storeTombstone | storeMarker | clearClosedVault => exact h
  | readSuccess | readClosedVault | sign | post => cases hw

theorem DeregistrationPhase.Holds.settle {op : Operation DeregistrationPhase}
    (h : op.phase.Holds now s) : op.phase.Holds now (s.settle op.pending result) := by
  rcases op.settle_cases s result with ⟨-, hsame⟩ | ⟨w, -, hw, -, -, -⟩
  · rwa [hsame]
  · exact h.of_write hw

/-- `now'` is what stands after the turn. -/
theorem DeregistrationPhase.Holds.goes {phase phase' : DeregistrationPhase}
    {now' : Option SuccessRecord} (h : phase.Holds now s) (hgoes : phase.Goes deps m s phase')
    (hkept : now = none → now' = none)
    (hremoved : ∀ record closureProven fields signature,
      phase = .post record closureProven fields signature →
      m.delivery.deregisters = true → now' = none)
    (habsent : ∀ record fields signature tomb, phase = .post record true fields signature →
      m.delivery.deregisters = false → m.delivery.ownershipFailed = true →
      s.closedVault = .value tomb → now' = none) :
    phase'.Holds now' s := by
  cases hgoes with
  | record => trivial
  | handed hproven howner hvault =>
      intro hclosure
      obtain ⟨tomb, htomb, -⟩ := hproven hclosure
      exact ⟨tomb, htomb⟩
  | signed => exact h
  | removed hremoves => exact hremoved _ _ _ _ rfl hremoves
  | nothing hremoves => exact hremoved _ _ _ _ rfl hremoves
  | absent hnot hfailed =>
      obtain ⟨tomb, htomb⟩ := h rfl
      exact habsent _ _ _ tomb rfl hnot hfailed htomb
  | stored | notStored => exact hkept h

theorem ClosurePhase.Holds.fits {phase : ClosurePhase} {w : Write} (h : phase.Holds s)
    (hw : phase.write = some w) : w.Fits deps owner token now s := by
  cases phase with
  | readSuccess => cases hw
  | storeClosedVault tomb =>
      cases hw
      exact h

theorem ClosurePhase.Holds.settle {op : Operation ClosurePhase} (h : op.phase.Holds s) :
    op.phase.Holds (s.settle op.pending result) := by
  rcases op.settle_cases s result with ⟨-, hsame⟩ | ⟨w, -, hw, -, -, hput⟩
  · rwa [hsame]
  · rw [hput]
    cases hphase : op.phase with
    | readSuccess => trivial
    | storeClosedVault tomb =>
        rw [hphase] at h hw
        cases hw
        exact h

theorem ClosurePhase.Goes.holds {phase phase' : ClosurePhase} (hgoes : phase.Goes s phase')
    (hcoherent : s.Coherent deps owner token now)
    (hdated : ∀ tombstone, s.success = .value (.tombstone tombstone) →
      (StoredRecord.tombstone tombstone).isDeregistered = true) :
    phase'.Holds s := by
  cases hgoes with
  | @active _ _ _ record tomb hrecord hactive hprior =>
      cases record with
      | success record =>
          obtain ⟨n, hn, hle⟩ := hcoherent.record record hrecord
          exact ⟨record.revision, n, hprior, hn, hle⟩
      | tombstone tombstone => cases hactive.symm.trans (hdated tombstone hrecord)

theorem CheckPhase.fits {phase : CheckPhase} {w : Write} (h : phase.repairs = true → now = none)
    (hw : phase.write = some w) : w.Fits deps owner token now s := by
  cases phase with
  | storeTombstone =>
      cases hw
      exact h rfl
  | clearClosedVault | clearDeregPending | storePending =>
      cases hw
      trivial
  | readClosedVault | readClosedRecord | readDeregPending | readSuccess | deviceToken | hash
      | readPending => cases hw

/-- A check that comes to repair has found a marker, which no standing registration allows. -/
theorem CheckPhase.turn_mends {parties : Parties} {current : Bool} {phase phase' : CheckPhase}
    (hcoherent : s.Coherent deps owner token now) (h : phase.repairs = true → now = none)
    (hnext : (phase.turn deps parties current m s).2 = .wait phase')
    (hrepairs : phase'.repairs = true) : now = none := by
  rcases CheckPhase.turn_repairs hnext hrepairs with hbefore | ⟨-, hmarked⟩
  · exact h hbefore
  · cases hnow : now with
    | none => rfl
    | some record => exact absurd (hcoherent.stands record hnow).unmarked hmarked

end Others

/-! ## Steps -/

section Steps

variable {deps : Deps} {owner token : String} {now : Option SuccessRecord} {s : Settings}
  {registration : Option (Operation RegistrationPhase)}
  {deregistration : Option (Operation DeregistrationPhase)} {closures : List (Operation ClosurePhase)}
  {checks : List Check} {app : App} {es : List Event} {m : Moment}

theorem eq_of_getElem?_singleton {α : Type} {a b : α} {index : Nat} (h : [a][index]? = some b) :
    a = b ∧ index = 0 := by
  rw [List.getElem?_singleton] at h
  split at h
  next hzero => exact ⟨Option.some.inj h, hzero⟩
  · cases h

theorem Activity.of_registration {op : Operation RegistrationPhase}
    (h : Activity deps owner token now s (some op) deregistration closures checks) :
    op.Registers deps owner token s ∧ deregistration = none ∧ closures = [] ∧ checks = [] := by
  cases h with
  | registration hop => exact ⟨hop, rfl, rfl, rfl⟩

theorem Activity.of_deregistration {op : Operation DeregistrationPhase}
    (h : Activity deps owner token now s registration (some op) closures checks) :
    (op.owner = owner ∧ op.phase.Holds now s) ∧ registration = none ∧ closures = [] ∧
      checks = [] := by
  cases h with
  | deregistration howner hop => exact ⟨⟨howner, hop⟩, rfl, rfl, rfl⟩

theorem Activity.of_closure {op : Operation ClosurePhase} {index : Nat}
    (h : Activity deps owner token now s registration deregistration closures checks)
    (hop : closures[index]? = some op) :
    (op.owner = owner ∧ op.phase.Holds s) ∧ registration = none ∧ deregistration = none ∧
      closures = [op] ∧ index = 0 ∧ checks = [] := by
  cases h with
  | closure howner hphase =>
      obtain ⟨rfl, rfl⟩ := eq_of_getElem?_singleton hop
      exact ⟨⟨howner, hphase⟩, rfl, rfl, rfl, rfl, rfl⟩
  | idle | registration | deregistration | check => cases hop

theorem Activity.of_check {check : Check} {index : Nat}
    (h : Activity deps owner token now s registration deregistration closures checks)
    (hcheck : checks[index]? = some check) :
    (check.owner = owner ∧ (check.phase.repairs = true → now = none)) ∧ registration = none ∧
      deregistration = none ∧ closures = [] ∧ checks = [check] ∧ index = 0 := by
  cases h with
  | check howner hphase =>
      obtain ⟨rfl, rfl⟩ := eq_of_getElem?_singleton hcheck
      exact ⟨⟨howner, hphase⟩, rfl, rfl, rfl, rfl, rfl⟩
  | idle | registration | deregistration | closure => cases hcheck

theorem App.isIdle_iff : app.isIdle = true ↔
    app.registration = none ∧ app.deregistration = none ∧ app.closures = [] ∧ app.checks = [] := by
  rw [isIdle, Bool.and_eq_true_iff, Bool.and_eq_true_iff, Bool.and_eq_true_iff,
    Option.isNone_iff_eq_none, Option.isNone_iff_eq_none, List.isEmpty_iff, List.isEmpty_iff,
    and_assoc, and_assoc]

/-- The settings of the owner once an operation's write has come to its result. -/
theorem App.written_own {φ : Type} [Awaits φ] {op : Operation φ} (app : App)
    (howner : op.owner = owner) (result : WriteResult) :
    app.written op result owner = (app.settings owner).settle op.pending result := by
  rw [written, put_apply, if_pos howner.symm, howner]

theorem Settings.Coherent.forget (h : s.Coherent deps owner token now) :
    s.Coherent deps owner token none :=
  ⟨h.record, h.closure, nofun⟩

theorem Activity.settings {s' : Settings} {now' : Option SuccessRecord}
    (h : Activity deps owner token now s none none [] []) :
    Activity deps owner token now' s' none none [] [] := by
  cases h
  exact .idle

/-- A registration that is accepted takes the place of the one that stood. -/
theorem standing_reports (m : Moment) (now : Option SuccessRecord)
    (op : Operation RegistrationPhase) (next : RegistrationNext) :
    (op.reports m next).foldl (standingAfter owner) now = now ∨
      (op.reports m next).foldl (standingAfter owner) now = none := by
  rw [Operation.reports.eq_def]
  split
  · exact .inl rfl
  · split
    · split
      · rw [List.foldl_cons, List.foldl_nil, standingAfter]
        split
        · exact .inr rfl
        · exact .inl rfl
      · exact .inl rfl
    · exact .inl rfl

theorem App.Local.resumeRegistration {op : Operation RegistrationPhase}
    (h : app.Local deps owner token es) (hop : app.registration = some op)
    (htoken : ∀ t, m.deviceToken = some (some t) → t = token)
    (hunmarked : app.unmarked owner (.resume .registration m) = true) :
    (app.resumeRegistration deps m op).1.Local deps owner token
      (es ++ (app.resumeRegistration deps m op).2) := by
  have hactivity := h.activity
  rw [hop] at hactivity
  obtain ⟨hregisters, hdereg, hclosures, hchecks⟩ := hactivity.of_registration
  have hsettings : (app.resumeRegistration deps m op).1.settings owner =
      (app.settings owner).settle op.pending m.write := by
    rw [resumeRegistration_settings]
    exact app.written_own hregisters.own m.write
  have hwritten : ((app.settings owner).settle op.pending m.write).Coherent deps owner token
      ((op.wrote m.write).foldl (standingAfter owner) (standing owner es)) := by
    refine h.coherent.settle m.write hregisters.own fun w hlanded hw hlands => ?_
    refine hregisters.fits hlanded hw fun created record hphase => ?_
    have hthere := hunmarked
    obtain ⟨o, phase, landed⟩ := op
    obtain rfl : phase = .storeSuccess created record := hphase
    obtain rfl : landed = false := hlanded
    rw [unmarked, hop] at hthere
    simpa [Happening.lands, hlands] using hthere
  have hstanding : standing owner (es ++ (app.resumeRegistration deps m op).2) =
      (op.reports m (op.phase.turn deps m (app.settings op.owner)).2).foldl (standingAfter owner)
        ((op.wrote m.write).foldl (standingAfter owner) (standing owner es)) := by
    rw [standing_append, App.resumeRegistration, List.foldl_append, List.foldl_append,
      standing_started]
  constructor
  · rw [hsettings, hstanding]
    rcases standing_reports m ((op.wrote m.write).foldl (standingAfter owner) (standing owner es))
      op (op.phase.turn deps m (app.settings op.owner)).2 with hkept | hnone
    · rw [hkept]
      exact hwritten
    · rw [hnone]
      exact hwritten.forget
  · rw [hsettings]
    have hnext : (app.resumeRegistration deps m op).1.registration =
        op.next (op.phase.turn deps m (app.settings op.owner)).2 := rfl
    have hrest : (app.resumeRegistration deps m op).1.deregistration = none ∧
        (app.resumeRegistration deps m op).1.closures = [] ∧
        (app.resumeRegistration deps m op).1.checks = [] := ⟨hdereg, hclosures, hchecks⟩
    rw [hrest.1, hrest.2.1, hrest.2.2, hnext]
    cases hturn : (op.phase.turn deps m (app.settings op.owner)).2 with
    | finish | threw => exact .idle
    | wait phase =>
        have hgoes := RegistrationPhase.turn_goes hturn
        rw [hregisters.own] at hgoes
        exact .registration (hregisters.goes h.coherent htoken hgoes)

/-- The server's removal of the registration leaves none standing. -/
theorem standing_deregReports {op : Operation DeregistrationPhase} (m : Moment)
    (now : Option SuccessRecord) (howner : op.owner = owner) :
    (op.deregReports m).foldl (standingAfter owner) now = now ∨
      (op.deregReports m).foldl (standingAfter owner) now = none := by
  rw [Operation.deregReports]
  split
  · split
    · rw [List.foldl_cons, List.foldl_nil, standingAfter, if_pos howner]
      exact .inr rfl
    · exact .inl rfl
  · exact .inl rfl

theorem standing_removed {op : Operation DeregistrationPhase} {record : Option StoredRecord}
    {closureProven : Bool} {fields : DeregisterFields} {signature : String}
    (howner : op.owner = owner) (hphase : op.phase = .post record closureProven fields signature)
    (hremoves : m.delivery.deregisters = true) :
    (op.deregReports m).foldl (standingAfter owner) now = none := by
  rw [Operation.deregReports, hphase]
  dsimp only
  rw [if_pos hremoves, List.foldl_cons, List.foldl_nil, standingAfter, if_pos howner]

/-- A cleanup that the server has refused is taken for done only if nothing stands. -/
theorem Settings.Coherent.absent {op : Operation DeregistrationPhase} {record : Option StoredRecord}
    {fields : DeregisterFields} {signature : String} {tomb : ClosedVaultTombstone}
    (h : (app.settings owner).Coherent deps owner token now)
    (hop : app.deregistration = some op)
    (hunstale : app.unstale owner (.resume .deregistration m) = true) (howner : op.owner = owner)
    (hphase : op.phase = .post record true fields signature)
    (hnot : m.delivery.deregisters = false) (hfailed : m.delivery.ownershipFailed = true)
    (htomb : (app.settings owner).closedVault = .value tomb) :
    (op.deregReports m).foldl (standingAfter owner) now = none := by
  have hreports : op.deregReports m = [] := by
    rw [Operation.deregReports, hphase]
    dsimp only
    rw [if_neg (Bool.eq_false_iff.mp hnot)]
  rw [hreports, List.foldl_nil]
  cases hnow : now with
  | none => rfl
  | some standing =>
      have hstands := h.stands standing hnow
      have hstale := hstands.stale tomb htomb
      obtain ⟨o, phase, landed⟩ := op
      obtain rfl : phase = .post record true fields signature := hphase
      unfold App.unstale at hunstale
      rw [hop] at hunstale
      dsimp only at hunstale
      rw [htomb, hstands.stored, hnot, hfailed] at hunstale
      dsimp only at hunstale
      rw [hstale] at hunstale
      cases hunstale

/-- After a write comes a phase that depends on no setting. -/
theorem DeregistrationPhase.Goes.of_write {phase phase' : DeregistrationPhase} {w : Write}
    {s' : Settings} (hgoes : phase.Goes deps m s phase') (hw : phase.write = some w)
    (h : phase'.Holds now s) : phase'.Holds now s' := by
  cases hgoes with
  | stored | notStored => exact h
  | record | handed | signed | removed | nothing | absent => cases hw

theorem App.Local.resumeDeregistration {op : Operation DeregistrationPhase}
    (h : app.Local deps owner token es) (hop : app.deregistration = some op)
    (hunstale : app.unstale owner (.resume .deregistration m) = true) :
    (app.resumeDeregistration deps m op).1.Local deps owner token
      (es ++ (app.resumeDeregistration deps m op).2) := by
  have hactivity := h.activity
  rw [hop] at hactivity
  obtain ⟨⟨howner, hphase⟩, hreg, hclosures, hchecks⟩ := hactivity.of_deregistration
  obtain ⟨hrecord, hclosure⟩ := op.phase.write_keeps
  have hsettings : (app.resumeDeregistration deps m op).1.settings owner =
      (app.settings owner).settle op.pending m.write := by
    rw [resumeDeregistration_settings]
    exact app.written_own howner m.write
  have hwrote := standing_wrote owner m.write op (standing owner es) hrecord
    hclosure
  have hwritten := h.coherent.settle m.write howner fun w _ hw _ => hphase.fits hw
  rw [hwrote] at hwritten
  have hstanding : standing owner (es ++ (app.resumeDeregistration deps m op).2) =
      (op.deregReports m).foldl (standingAfter owner) (standing owner es) := by
    rw [standing_append, App.resumeDeregistration, List.foldl_append, List.foldl_append,
      standing_started, hwrote]
  have hstands := standing_deregReports m (standing owner es) howner
  constructor
  · rw [hsettings, hstanding]
    rcases hstands with hkept | hnone
    · rw [hkept]
      exact hwritten
    · rw [hnone]
      exact hwritten.forget
  · rw [hsettings, hstanding]
    have hnext : (app.resumeDeregistration deps m op).1.deregistration =
        op.next (op.phase.turn deps m (app.settings op.owner)).2 := rfl
    have hrest : (app.resumeDeregistration deps m op).1.registration = none ∧
        (app.resumeDeregistration deps m op).1.closures = [] ∧
        (app.resumeDeregistration deps m op).1.checks = [] := ⟨hreg, hclosures, hchecks⟩
    rw [hrest.1, hrest.2.1, hrest.2.2, hnext]
    cases hturn : (op.phase.turn deps m (app.settings op.owner)).2 with
    | finish | threw => exact .idle
    | wait phase =>
        have hgoes := DeregistrationPhase.turn_goes hturn
        rw [howner] at hgoes
        have hholds := hphase.goes hgoes (fun hnone => hstands.elim (·.trans hnone) id)
          (fun _ _ _ _ hpost hremoves => standing_removed howner hpost hremoves)
          (fun _ _ _ _ hpost hnot hfailed htomb =>
            h.coherent.absent hop hunstale howner hpost hnot hfailed htomb)
        refine .deregistration howner ?_
        rcases op.settle_cases (app.settings owner) m.write with ⟨-, hsame⟩ | ⟨w, -, hw, -, -, -⟩
        · rwa [hsame]
        · exact hgoes.of_write hw hholds

theorem App.Local.resumeClosure {op : Operation ClosurePhase} {index : Nat}
    (h : app.Local deps owner token es) (hop : app.closures[index]? = some op)
    (hdated : app.dated owner (.resume (.closure index) m) = true) :
    (app.resumeClosure deps m index op).1.Local deps owner token
      (es ++ (app.resumeClosure deps m index op).2) := by
  obtain ⟨⟨howner, hphase⟩, hreg, hdereg, hclosures, rfl, hchecks⟩ := h.activity.of_closure hop
  have hsettings : (app.resumeClosure deps m 0 op).1.settings owner =
      (app.settings owner).settle op.pending m.write := by
    rw [resumeClosure_settings]
    exact app.written_own howner m.write
  have hwritten := h.coherent.settle m.write howner fun w _ hw _ => hphase.fits hw
  have hstanding : standing owner (es ++ (app.resumeClosure deps m 0 op).2) =
      (op.wrote m.write).foldl (standingAfter owner) (standing owner es) := by
    rw [standing_append, App.resumeClosure, List.foldl_append, standing_started]
  constructor
  · rw [hsettings, hstanding]
    exact hwritten
  · rw [hsettings]
    have hnext : (app.resumeClosure deps m 0 op).1.closures =
        (op.next (op.phase.turn deps m (app.settings op.owner)).2).elim (app.closures.eraseIdx 0)
          (app.closures.set 0) := rfl
    have hrest : (app.resumeClosure deps m 0 op).1.registration = none ∧
        (app.resumeClosure deps m 0 op).1.deregistration = none ∧
        (app.resumeClosure deps m 0 op).1.checks = [] := ⟨hreg, hdereg, hchecks⟩
    rw [hrest.1, hrest.2.1, hrest.2.2, hnext, hclosures]
    cases hturn : (op.phase.turn deps m (app.settings op.owner)).2 with
    | finish | threw => exact .idle
    | wait phase =>
        have hgoes := ClosurePhase.turn_goes hturn
        rw [howner] at hgoes
        have hholds := hgoes.holds h.coherent fun tombstone htombstone => by
          unfold App.dated at hdated
          rw [htombstone] at hdated
          exact hdated
        refine .closure howner ?_
        have hnone : Awaits.write op.phase = none := by
          obtain ⟨o, phase', landed⟩ := op
          cases hgoes
          rfl
        rw [Settings.settle_of_no_write hnone]
        exact hholds

/-- A check leaves standing what stood. -/
theorem standing_resumeCheck (deps : Deps) (owner : String) (app : App) (m : Moment) (index : Nat)
    (check : Check) (es : List Event) :
    standing owner (es ++ (app.resumeCheck deps m index check).2) = standing owner es := by
  obtain ⟨hrecord, hclosure⟩ := check.phase.write_keeps
  have hwrote := standing_wrote owner m.write check.toOperation (standing owner es) hrecord hclosure
  rw [standing_append, App.resumeCheck, List.foldl_append, List.foldl_append, standing_emits,
    standing_started, hwrote]

theorem App.Local.resumeCheck {check : Check} {index : Nat} (h : app.Local deps owner token es)
    (hcheck : app.checks[index]? = some check) :
    (app.resumeCheck deps m index check).1.Local deps owner token
      (es ++ (app.resumeCheck deps m index check).2) := by
  obtain ⟨⟨howner, hrepairs⟩, hreg, hdereg, hclosures, hchecks, rfl⟩ := h.activity.of_check hcheck
  obtain ⟨hrecord, hclosure⟩ := check.phase.write_keeps
  have hsettings : (app.resumeCheck deps m 0 check).1.settings owner =
      (app.settings owner).settle check.pending m.write := by
    rw [resumeCheck_settings]
    exact app.written_own howner m.write
  have hwrote := standing_wrote owner m.write check.toOperation (standing owner es) hrecord
    hclosure
  have hwritten := h.coherent.settle m.write howner fun w _ hw _ =>
    CheckPhase.fits hrepairs hw
  rw [hwrote] at hwritten
  have hstanding := standing_resumeCheck deps owner app m 0 check es
  constructor
  · rw [hsettings, hstanding]
    exact hwritten
  · rw [hstanding]
    have hnext : (app.resumeCheck deps m 0 check).1.checks =
        (check.next (check.phase.turn deps check.parties (app.isCurrent check) m
          (app.settings check.owner)).2).elim (app.checks.eraseIdx 0) fun op =>
            app.checks.set 0 { check with toOperation := op } := rfl
    have hrest : (app.resumeCheck deps m 0 check).1.registration = none ∧
        (app.resumeCheck deps m 0 check).1.deregistration = none ∧
        (app.resumeCheck deps m 0 check).1.closures = [] := ⟨hreg, hdereg, hclosures⟩
    rw [hrest.1, hrest.2.1, hrest.2.2, hnext, hchecks]
    cases hturn : (check.phase.turn deps check.parties (app.isCurrent check) m
        (app.settings check.owner)).2 with
    | finish | threw => exact .idle
    | wait phase =>
        rw [howner] at hturn
        exact .check howner fun hrepairs' =>
          CheckPhase.turn_mends h.coherent hrepairs hturn hrepairs'

theorem App.Local.land (h : app.Local deps owner token es) (slot : Slot)
    (hunmarked : app.unmarked owner (.land slot) = true) :
    (app.land slot).1.Local deps owner token (es ++ (app.land slot).2) := by
  have hnothing : app.Local deps owner token (es ++ []) := by
    rw [List.append_nil]
    exact h
  cases slot with
  | registration =>
      rw [App.land]
      cases hop : app.registration with
      | none => exact hnothing
      | some op =>
          have hactivity := h.activity
          rw [hop] at hactivity
          obtain ⟨hregisters, hdereg, hclosures, hchecks⟩ := hactivity.of_registration
          have hsettings := app.written_own hregisters.own .stored
          have hwritten := h.coherent.settle .stored hregisters.own
            fun w hlanded hw _ => hregisters.fits hlanded hw fun created record hphase => by
              obtain ⟨o, phase, landed⟩ := op
              obtain rfl : phase = .storeSuccess created record := hphase
              obtain rfl : landed = false := hlanded
              rw [App.unmarked, hop] at hunmarked
              simpa [Happening.lands] using hunmarked
          constructor
          · dsimp only
            rw [hsettings, standing_append]
            exact hwritten
          · dsimp only
            rw [hsettings, hdereg, hclosures, hchecks]
            exact .registration hregisters.land
  | deregistration =>
      rw [App.land]
      cases hop : app.deregistration with
      | none => exact hnothing
      | some op =>
          have hactivity := h.activity
          rw [hop] at hactivity
          obtain ⟨⟨howner, hphase⟩, hreg, hclosures, hchecks⟩ := hactivity.of_deregistration
          obtain ⟨hrecord, hclosure⟩ := op.phase.write_keeps
          have hsettings := app.written_own howner .stored
          have hwrote := standing_wrote owner .stored op (standing owner es) hrecord hclosure
          have hwritten := h.coherent.settle .stored howner fun w _ hw _ =>
            hphase.fits hw
          rw [hwrote] at hwritten
          constructor
          · dsimp only
            rw [hsettings, standing_append, hwrote]
            exact hwritten
          · dsimp only
            rw [hsettings, standing_append, hwrote, hreg, hclosures, hchecks]
            exact .deregistration howner hphase.settle
  | closure index =>
      rw [App.land]
      cases hop : app.closures[index]? with
      | none => exact hnothing
      | some op =>
          obtain ⟨⟨howner, hphase⟩, hreg, hdereg, hclosures, rfl, hchecks⟩ :=
            h.activity.of_closure hop
          have hsettings := app.written_own howner .stored
          have hwritten := h.coherent.settle .stored howner fun w _ hw _ =>
            hphase.fits hw
          constructor
          · dsimp only
            rw [hsettings, standing_append]
            exact hwritten
          · dsimp only
            rw [hsettings, hreg, hdereg, hchecks, hclosures]
            exact .closure howner hphase.settle
  | check index =>
      rw [App.land]
      cases hcheck : app.checks[index]? with
      | none => exact hnothing
      | some check =>
          obtain ⟨⟨howner, hrepairs⟩, hreg, hdereg, hclosures, hchecks, rfl⟩ :=
            h.activity.of_check hcheck
          obtain ⟨hrecord, hclosure⟩ := check.phase.write_keeps
          have hsettings := app.written_own howner .stored
          have hwrote := standing_wrote owner .stored check.toOperation (standing owner es) hrecord
            hclosure
          have hwritten := h.coherent.settle .stored howner fun w _ hw _ =>
            CheckPhase.fits hrepairs hw
          rw [hwrote] at hwritten
          constructor
          · dsimp only
            rw [hsettings, standing_append, hwrote]
            exact hwritten
          · dsimp only
            rw [standing_append, hwrote, hreg, hdereg, hclosures, hchecks]
            exact .check howner hrepairs

/-- A step that reports nothing and writes nothing. -/
theorem App.Local.of_activity {app' : App} (h : app.Local deps owner token es)
    (hsettings : app'.settings = app.settings)
    (hactivity : Activity deps owner token (standing owner es) (app.settings owner)
      app'.registration app'.deregistration app'.closures app'.checks) :
    app'.Local deps owner token es :=
  ⟨hsettings ▸ h.coherent, hsettings ▸ hactivity⟩

theorem App.Local.register {input : RegistrationInput} (h : app.Local deps owner token es)
    (hserial : app.serial owner token (.register input) = true) :
    (app.register deps input).Local deps owner token es := by
  obtain ⟨hidle, howner⟩ := Bool.and_eq_true_iff.mp hserial
  obtain ⟨-, hdereg, hclosures, hchecks⟩ := App.isIdle_iff.mp hidle
  obtain rfl := of_decide_eq_true howner
  rw [App.register]
  split
  next phase _ hphase =>
    obtain ⟨vault, stage1, stage2, stage3, hempty, hvault, rfl⟩ :=
      Deps.startRegistration_wait hphase
    refine h.of_activity rfl ?_
    rw [hdereg, hclosures, hchecks]
    exact .registration ⟨rfl, rfl, hempty, ⟨vault, hvault⟩, trivial⟩
  · exact h

theorem App.Local.deregister {input : DeregisterInput} (h : app.Local deps owner token es)
    (hserial : app.serial owner token (.deregister input) = true) :
    (app.deregister deps input).Local deps owner token es := by
  obtain ⟨hidle, howner⟩ := Bool.and_eq_true_iff.mp hserial
  obtain ⟨hreg, -, hclosures, hchecks⟩ := App.isIdle_iff.mp hidle
  obtain rfl := of_decide_eq_true howner
  rw [App.deregister]
  split
  next phase _ hphase =>
    obtain ⟨vault, -, rfl⟩ := Deps.startDeregistration_wait hphase
    refine h.of_activity rfl ?_
    rw [hreg, hclosures, hchecks]
    exact .deregistration rfl trivial
  · exact h

theorem App.Local.recordVaultClosure {input : VaultClosureInput}
    (h : app.Local deps owner token es)
    (hserial : app.serial owner token (.recordVaultClosure input) = true) :
    (app.recordVaultClosure deps input).Local deps owner token es := by
  obtain ⟨hidle, howner⟩ := Bool.and_eq_true_iff.mp hserial
  obtain ⟨hreg, hdereg, hclosures, hchecks⟩ := App.isIdle_iff.mp hidle
  obtain rfl := of_decide_eq_true howner
  rw [App.recordVaultClosure]
  split
  next phase hphase =>
    obtain ⟨parties, revokeSig, revokedAt, rfl⟩ := Deps.startClosure_wait hphase
    refine h.of_activity rfl ?_
    dsimp only
    rw [hreg, hdereg, hclosures, hchecks]
    exact .closure rfl trivial
  · exact h

theorem Deps.startCheck_wait {connectedOwner : Option String} {parties : Parties}
    (h : deps.startCheck connectedOwner = .wait parties) : connectedOwner = some parties.owner := by
  rw [startCheck] at h
  split at h
  · cases h
  next owner' howner =>
    split at h
    · cases h
    · cases h
      exact (Option.filter_eq_some_iff.mp howner).1

theorem App.Local.checkNow {connectedOwner : Option String} (h : app.Local deps owner token es)
    (hserial : app.serial owner token (.checkNow connectedOwner) = true) :
    (app.checkNow deps connectedOwner).1.Local deps owner token
      (es ++ (app.checkNow deps connectedOwner).2) := by
  obtain ⟨hidle, howner⟩ := Bool.and_eq_true_iff.mp hserial
  obtain ⟨hreg, hdereg, hclosures, hchecks⟩ := App.isIdle_iff.mp hidle
  obtain rfl := of_decide_eq_true howner
  have hactivity := h.activity
  rw [hreg, hdereg, hclosures, hchecks] at hactivity
  rw [App.checkNow]
  split
  next parties hparties =>
    obtain rfl := Option.some.inj (Deps.startCheck_wait hparties)
    rw [List.append_nil]
    refine h.of_activity rfl ?_
    dsimp only
    rw [hreg, hdereg, hclosures, hchecks]
    exact .check rfl nofun
  · constructor
    · dsimp only
      rw [standing_append, standing_emits]
      exact h.coherent
    · dsimp only
      rw [standing_append, standing_emits, hreg, hdereg, hclosures, hchecks]
      exact .idle

theorem App.Local.resume (h : app.Local deps owner token es) (slot : Slot)
    (hserial : app.serial owner token (.resume slot m) = true)
    (htidy : app.tidy owner (.resume slot m) = true) :
    (app.resume deps m slot).1.Local deps owner token (es ++ (app.resume deps m slot).2) := by
  obtain ⟨hmarks, hdated⟩ := Bool.and_eq_true_iff.mp htidy
  obtain ⟨hunmarked, hunstale⟩ := Bool.and_eq_true_iff.mp hmarks
  have hnothing : app.Local deps owner token (es ++ []) := by
    rw [List.append_nil]
    exact h
  cases slot with
  | registration =>
      rw [App.resume]
      cases hop : app.registration with
      | none => exact hnothing
      | some op =>
          refine h.resumeRegistration hop (fun t ht => ?_) hunmarked
          rw [App.serial, ht] at hserial
          exact of_decide_eq_true hserial
  | deregistration =>
      rw [App.resume]
      cases hop : app.deregistration with
      | none => exact hnothing
      | some op => exact h.resumeDeregistration hop hunstale
  | closure index =>
      rw [App.resume]
      cases hop : app.closures[index]? with
      | none => exact hnothing
      | some op => exact h.resumeClosure hop hdated
  | check index =>
      rw [App.resume]
      cases hcheck : app.checks[index]? with
      | none => exact hnothing
      | some check => exact h.resumeCheck hcheck

theorem App.Local.step {happening : Happening} (h : app.Local deps owner token es)
    (hserial : app.serial owner token happening = true) (htidy : app.tidy owner happening = true) :
    (app.step deps happening).1.Local deps owner token (es ++ (app.step deps happening).2) := by
  cases happening with
  | register input =>
      rw [App.step, List.append_nil]
      exact h.register hserial
  | deregister input =>
      rw [App.step, List.append_nil]
      exact h.deregister hserial
  | recordVaultClosure input =>
      rw [App.step, List.append_nil]
      exact h.recordVaultClosure hserial
  | checkNow connectedOwner => exact h.checkNow hserial
  | invalidate | dispose =>
      rw [App.step, List.append_nil]
      exact h.of_activity rfl h.activity
  | resume slot m => exact h.resume slot hserial htidy
  | land slot =>
      obtain ⟨hmarks, -⟩ := Bool.and_eq_true_iff.mp htidy
      obtain ⟨hunmarked, -⟩ := Bool.and_eq_true_iff.mp hmarks
      exact h.land slot hunmarked
  | restart =>
      rw [App.step, List.append_nil]
      exact h.of_activity rfl .idle

end Steps

theorem App.start_local (deps : Deps) (owner token : String) :
    (App.start fun _ => .empty).Local deps owner token [] :=
  ⟨Settings.empty_coherent, .idle⟩

theorem App.run_local {deps : Deps} {owner token : String} {hs : List Happening}
    (h : Machine.Along (App.step deps)
      (fun app h => app.serial owner token h = true ∧ app.tidy owner h = true)
      (App.start fun _ => .empty) hs) :
    ((App.start fun _ => .empty).run deps hs).Local deps owner token
      ((App.start fun _ => .empty).events deps hs) :=
  Machine.preserves (P := fun es (app : App) => app.Local deps owner token es)
    (fun _ _ _ hes hq => hes.step hq.1 hq.2) h (App.start_local deps owner token)

/-! ## The next check -/

def isHexChar (c : Char) : Bool := "0123456789abcdefABCDEF".toList.contains c

/-- A digest is 64 hexadecimal digits. -/
structure Deps.HexDigests (deps : Deps) : Prop where
  digest : ∀ text, (deps.sha256Hex text).length = 64 ∧
    (deps.sha256Hex text).toList.all isHexChar = true

theorem isLowerHexChar_toLower {c : Char} (h : isHexChar c = true) :
    isLowerHexChar c.toLower = true := by
  have hall : ("0123456789abcdefABCDEF".toList.all fun c => isLowerHexChar c.toLower) = true := by
    decide
  exact List.all_eq_true.mp hall c (List.contains_iff_mem.mp h)

theorem Deps.HexDigests.strong {deps : Deps} (h : deps.HexDigests) (token : String) :
    isStrongFingerprint (tokenFingerprint (deps.tokenHash token)) = true := by
  obtain ⟨hlength, hall⟩ := h.digest token
  rw [← String.length_toList] at hlength
  have hlower : (deps.sha256Hex token).toLower.toList =
      (deps.sha256Hex token).toList.map Char.toLower := String.toList_map
  rw [isStrongFingerprint, tokenFingerprint, String.toList_ofList, ← String.length_toList,
    String.toList_ofList, tokenHash, hlower, Bool.and_eq_true_iff]
  constructor
  · rw [List.length_take, List.length_map, hlength]
    decide
  · rw [List.all_eq_true]
    intro c hc
    obtain ⟨c', hc', rfl⟩ := List.mem_map.mp (List.mem_of_mem_take hc)
    exact isLowerHexChar_toLower (List.all_eq_true.mp hall c' hc')

/-- The check is no more than so many turns from finding the record enabled. -/
inductive CheckPhase.Nears (token : String) (record : SuccessRecord) (s : Settings) :
    Nat → CheckPhase → Prop
  | hash : Nears token record s 1 (.hash (some (.success record)) token)
  | deviceToken : Nears token record s 2 (.deviceToken (some (.success record)))
  | readSuccess : Nears token record s 3 .readSuccess
  | readDeregPending : Nears token record s 4 .readDeregPending
  | clearClosedVault : Nears token record s 5 .clearClosedVault
  | readClosedRecord {tomb : ClosedVaultTombstone} :
      s.closedVault = .value tomb → Nears token record s 6 (.readClosedRecord tomb)
  | readClosedVault : Nears token record s 7 .readClosedVault

/-- The settings can be read, and so can the device token. -/
structure Moment.Readable (token : String) (m : Moment) : Prop where
  reads : m.readFails = false
  token : m.deviceToken = some (some token)
  hashes : m.hashFails = false

section NextCheck

variable {deps : Deps} {owner token : String} {s : Settings} {record : SuccessRecord} {m : Moment}

theorem reconcile_enabled (hdigests : deps.HexDigests) (h : record.Genuine deps owner token) :
    (reconcile (some (.success record)) (some (deps.tokenHash token)) owner).1 = .enabled := by
  have hstrong := hdigests.strong token
  have hlegacy : isLegacyFingerprint (tokenFingerprint (deps.tokenHash token)) = false := by
    have hlength := of_decide_eq_true (Bool.and_eq_true_iff.mp hstrong).1
    rw [isLegacyFingerprint, hlength]
    rfl
  have howner : (StoredRecord.success record).owner = owner := h.own
  have hprint : (StoredRecord.success record).tokenFingerprint =
      some (tokenFingerprint (deps.tokenHash token)) := congrArg some h.fingerprint
  rw [reconcile, if_neg (not_not.mpr howner), if_neg (by exact Bool.false_ne_true), hprint]
  dsimp only
  rw [Option.any_some, Option.any_some, hlegacy, hstrong, if_neg Bool.false_ne_true,
    if_neg (by decide), if_pos rfl]

theorem CheckPhase.Nears.pos {n : Nat} {phase : CheckPhase} (h : phase.Nears token record s n) :
    0 < n := by
  cases h <;> exact Nat.zero_lt_succ _

theorem CheckPhase.Nears.advance {n : Nat} {phase : CheckPhase}
    (h : phase.Nears token record s n) (parties : Parties) (current : Bool) (hdigests : deps.HexDigests)
    (hstands : s.Stands deps owner token record) (howner : parties.owner = owner)
    (hm : m.Readable token) :
    (phase.turn deps parties current m s).2 = .finish .enabled ∨
      ∃ phase' k, (phase.turn deps parties current m s).2 = .wait phase' ∧ k < n ∧
        ∀ s', (phase.write = none → s' = s) → phase'.Nears token record s' k := by
  cases h with
  | hash =>
      have henabled := reconcile_enabled hdigests hstands.genuine
      refine .inl ?_
      rw [CheckPhase.turn, hm.hashes, if_neg Bool.false_ne_true]
      dsimp only
      rw [CheckNext.conclude, howner]
      generalize reconcile (some (.success record)) (some (deps.tokenHash token)) owner = result
        at henabled ⊢
      obtain ⟨state, fingerprint⟩ := result
      obtain rfl : state = .enabled := henabled
      rfl
  | deviceToken =>
      refine .inr ⟨_, 1, ?_, by omega, fun _ _ => .hash⟩
      rw [CheckPhase.turn, hm.token]
      dsimp only
      rw [if_neg hstands.genuine.available]
  | readSuccess =>
      refine .inr ⟨_, 2, ?_, by omega, fun _ _ => .deviceToken⟩
      rw [CheckPhase.turn, hm.reads, if_neg Bool.false_ne_true, hstands.stored]
  | readDeregPending =>
      refine .inr ⟨_, 3, ?_, by omega, fun _ _ => .readSuccess⟩
      rw [CheckPhase.turn, hm.reads, if_neg Bool.false_ne_true, hstands.unmarked]
  | clearClosedVault => exact .inr ⟨_, 4, rfl, by omega, fun _ _ => .readDeregPending⟩
  | readClosedRecord htomb =>
      refine .inr ⟨_, 5, ?_, by omega, fun _ _ => .clearClosedVault⟩
      rw [CheckPhase.turn]
      cases hactive : (s.success.readable m.readFails).filter (·.isActive parties) with
      | none => rfl
      | some stored =>
          have hstored := Stored.readable_eq_some (Option.filter_eq_some_iff.mp hactive).1
          cases hstands.stored.symm.trans hstored
          dsimp only
          rw [hstands.stale _ htomb]
          rfl
  | readClosedVault =>
      rw [CheckPhase.turn]
      cases htomb : s.closedVault.readable m.readFails with
      | none => exact .inr ⟨_, 4, rfl, by omega, fun _ _ => .readDeregPending⟩
      | some tomb =>
          dsimp only
          split
          · refine .inr ⟨_, 6, rfl, by omega, fun s' hsame => ?_⟩
            rw [hsame rfl]
            exact .readClosedRecord (Stored.readable_eq_some htomb)
          · exact .inr ⟨_, 4, rfl, by omega, fun _ _ => .readDeregPending⟩

def Event.returnedState : Event → Option LifecycleState
  | returned _ state => some state
  | _ => none

/-- The states that checks return, in order. -/
def returnedStates (es : List Event) : List LifecycleState := es.filterMap Event.returnedState

theorem returnedStates_wrote {φ : Type} [Awaits φ] (op : Operation φ) (result : WriteResult) :
    returnedStates (op.wrote result) = [] := by
  rw [Operation.wrote]
  split
  · cases op.pending <;> rfl
  · rfl

theorem returnedStates_started {φ ρ : Type} [Awaits φ] (owner : String) (next : Next φ ρ) :
    returnedStates (next.started owner) = [] := by
  cases next with
  | wait phase =>
      rw [Next.started]
      cases Awaits.write phase <;> rfl
  | finish | threw => rfl

theorem returnedStates_resumeCheck (deps : Deps) (app : App) (m : Moment) (index : Nat)
    (check : Check) :
    returnedStates (app.resumeCheck deps m index check).2 =
      match (check.phase.turn deps check.parties (app.isCurrent check) m
        (app.settings check.owner)).2 with
      | .finish state => [state]
      | _ => [] := by
  rw [App.resumeCheck, returnedStates, List.filterMap_append, List.filterMap_append]
  change returnedStates _ ++ returnedStates _ ++ returnedStates _ = _
  rw [returnedStates_wrote, returnedStates_started, List.nil_append, List.nil_append]
  cases (check.phase.turn deps check.parties (app.isCurrent check) m
    (app.settings check.owner)).2 with
  | finish state => cases app.isCurrent check <;> rfl
  | wait | threw => rfl

/-- The turns of the check that is in flight alone. -/
def checkTurns (ms : List Moment) : List Happening := ms.map (.resume (.check 0))

theorem App.checkTurns_ended (deps : Deps) {app : App} (h : app.checks = []) (ms : List Moment) :
    app.events deps (checkTurns ms) = [] ∧ app.run deps (checkTurns ms) = app := by
  induction ms with
  | nil => exact ⟨rfl, rfl⟩
  | cons m ms ih =>
      have hstep : app.step deps (.resume (.check 0) m) = (app, []) := by
        rw [App.step, App.resume, h]
        rfl
      obtain ⟨hevents, hrun⟩ := ih
      constructor
      · change (app.step deps (.resume (.check 0) m)).2 ++
          (app.step deps (.resume (.check 0) m)).1.events deps (checkTurns ms) = []
        rw [hstep]
        exact hevents
      · change (app.step deps (.resume (.check 0) m)).1.run deps (checkTurns ms) = app
        rw [hstep]
        exact hrun

/-- With enough turns, a check that is on its way returns that the record is enabled, and leaves
    the record. -/
theorem App.Local.concludes {ms : List Moment} {app : App} {es : List Event} {n : Nat}
    {check : Check} (hdigests : deps.HexDigests) (h : app.Local deps owner token es)
    (hstanding : standing owner es = some record) (hcheck : app.checks[0]? = some check)
    (hnears : check.phase.Nears token record (app.settings owner) n) (hn : n ≤ ms.length)
    (hms : ∀ m ∈ ms, m.Readable token) :
    returnedStates (app.events deps (checkTurns ms)) = [.enabled] ∧
      ((app.run deps (checkTurns ms)).settings owner).success = .value (.success record) := by
  induction ms generalizing app es n check with
  | nil => exact absurd hn (Nat.not_le.mpr hnears.pos)
  | cons m ms ih =>
      have hm := hms m List.mem_cons_self
      have hrest := fun m' hm' => hms m' (List.mem_cons_of_mem m hm')
      have hstep : app.step deps (.resume (.check 0) m) = app.resumeCheck deps m 0 check := by
        rw [App.step, App.resume, hcheck]
      obtain ⟨⟨howner, -⟩, -, -, -, hchecks, -⟩ := h.activity.of_check hcheck
      have hstands := h.coherent.stands record hstanding
      have hnext := h.resumeCheck (m := m) hcheck
      have hkept : standing owner (es ++ (app.resumeCheck deps m 0 check).2) = some record := by
        rw [standing_resumeCheck, hstanding]
      have hstands' := hnext.coherent.stands record hkept
      change returnedStates ((app.step deps (.resume (.check 0) m)).2 ++
          (app.step deps (.resume (.check 0) m)).1.events deps (checkTurns ms)) = [.enabled] ∧
        (((app.step deps (.resume (.check 0) m)).1.run deps (checkTurns ms)).settings owner).success =
          .value (.success record)
      rw [hstep, returnedStates, List.filterMap_append]
      change returnedStates (app.resumeCheck deps m 0 check).2 ++ returnedStates _ = _ ∧ _
      rw [returnedStates_resumeCheck]
      have hafter : (app.resumeCheck deps m 0 check).1.checks =
          (check.next (check.phase.turn deps check.parties (app.isCurrent check) m
            (app.settings check.owner)).2).elim (app.checks.eraseIdx 0) fun op =>
              app.checks.set 0 { check with toOperation := op } := rfl
      have hsettings : (app.resumeCheck deps m 0 check).1.settings owner =
          (app.settings owner).settle check.pending m.write := by
        rw [App.resumeCheck_settings]
        exact app.written_own howner m.write
      rw [hchecks] at hafter
      have hturn := hnears.advance check.parties (app.isCurrent check) hdigests hstands howner hm
      rw [← howner] at hturn
      rcases hturn with hfinish | ⟨phase, k, hwait, hk, hnears'⟩
      · rw [hfinish] at hafter ⊢
        obtain ⟨hevents, hrun⟩ := App.checkTurns_ended deps hafter ms
        rw [hevents, hrun]
        exact ⟨rfl, hstands'.stored⟩
      · rw [hwait] at hafter ⊢
        have hthere := hnears' ((app.resumeCheck deps m 0 check).1.settings owner) fun hnone => by
          rw [hsettings, Settings.settle_of_no_write hnone, howner]
        refine ih hnext hkept (congrArg (·[0]?) hafter) hthere ?_ hrest
        rw [List.length_cons] at hn
        omega

end NextCheck

/-- The storage and the device token can be read, and the check of the owner goes on to its end. -/
def nextCheck (owner : String) (ms : List Moment) : List Happening :=
  .checkNow (some owner) :: checkTurns ms

/-- After any run without overlap whose steps are all tidy, the next check of an owner whose
    registration stands returns that it is enabled, and keeps its record. -/
theorem next_check_enabled {deps : Deps} {owner token : String} {hs : List Happening}
    {record : SuccessRecord} {ms : List Moment} (hdigests : deps.HexDigests)
    (hserial : Machine.Along (App.step deps) (fun app h => app.serial owner token h = true)
      (App.start fun _ => .empty) hs)
    (htidy : Machine.Along (App.step deps) (fun app h => app.tidy owner h = true)
      (App.start fun _ => .empty) hs)
    (hidle : ((App.start fun _ => .empty).run deps hs).isIdle = true)
    (hstanding : standing owner ((App.start fun _ => .empty).events deps hs) = some record)
    (hms : ∀ m ∈ ms, m.Readable token) (hlength : 7 ≤ ms.length) :
    let app := (App.start fun _ => .empty).run deps hs
    returnedStates (app.events deps (nextCheck owner ms)) = [.enabled] ∧
      ((app.run deps (nextCheck owner ms)).settings owner).success = .value (.success record) := by
  intro app
  have hlocal := App.run_local (hserial.and htidy)
  have hnow : app.serial owner token (.checkNow (some owner)) = true :=
    Bool.and_eq_true_iff.mpr ⟨hidle, decide_eq_true rfl⟩
  have hgenuine := (hlocal.coherent.stands record hstanding).genuine
  obtain ⟨vault, hvault⟩ := hgenuine.derived
  have hchecks := (App.isIdle_iff.mp hidle).2.2.2
  have hstart : deps.startCheck (some owner) = .wait ⟨owner, vault⟩ := by
    have hfilter : (some owner).filter (· ≠ "") = some owner := by
      rw [Option.filter_some, if_pos (decide_eq_true hgenuine.canonical)]
    rw [Deps.startCheck, hfilter]
    dsimp only
    rw [hvault]
  have hstep : app.step deps (.checkNow (some owner)) =
      ({ app with
          generation := app.generation + 1
          checks := [⟨⟨owner, .readClosedVault, false⟩, vault, app.generation + 1⟩] }, []) := by
    rw [App.step, App.checkNow, hstart]
    dsimp only
    rw [hchecks]
    rfl
  have hnext := hlocal.checkNow hnow
  change (app.step deps (.checkNow (some owner))).1.Local deps owner token
    (_ ++ (app.step deps (.checkNow (some owner))).2) at hnext
  change returnedStates ((app.step deps (.checkNow (some owner))).2 ++
      (app.step deps (.checkNow (some owner))).1.events deps (checkTurns ms)) = [.enabled] ∧
    (((app.step deps (.checkNow (some owner))).1.run deps (checkTurns ms)).settings owner).success =
      .value (.success record)
  rw [hstep] at hnext ⊢
  rw [List.append_nil] at hnext
  exact hnext.concludes hdigests hstanding rfl .readClosedVault hlength hms

theorem Deps.sample_hexDigests : Deps.sample.HexDigests := by
  have hdigest : (Deps.sample.sha256Hex "device-token").length = 64 ∧
      (Deps.sample.sha256Hex "device-token").toList.all isHexChar = true := by decide +kernel
  exact ⟨fun _ => hdigest⟩

/-- The record of the sample registration. -/
def recordSample (revision : Nat) : SuccessRecord :=
  (Deps.sample.registerFields ⟨sampleOwner, sampleVault, 60, 75, 90⟩
    (Deps.sample.tokenHash "device-token") "2222222222222222222222" revision
    1700000000).record (some 1700000000)

/-- The server removes the registration, the tombstone is not written, and the marker is. -/
def deregistrationSample : List Happening :=
  .deregister ⟨sampleOwner, false⟩ :: List.replicate 4 (.resume .deregistration .sample) ++
    [.resume .deregistration { Moment.sample with write := .failed false },
      .resume .deregistration .sample]

/-- The server accepts the registration, and neither its record nor the cleared closure is
    written. -/
def unrecordedSample : List Happening :=
  .register .sample :: List.replicate 6 (.resume .registration .sample) ++
    List.replicate 2 (.resume .registration { Moment.sample with write := .failed false })

def closureSample : List Happening :=
  .recordVaultClosure ⟨sampleOwner, "5555555555555555555555555555555555", some 1700000001⟩ ::
    List.replicate 2 (.resume (.closure 0) .sample)

/-- A check makes up for the tombstone that was not written, and a registration for the record; the
    last registration clears a closure. -/
theorem next_check_enabled_sample :
    let repair := nextCheck sampleOwner (List.replicate 9 .sample)
    let app := (App.start fun _ => .empty).run .sample (registrationSample ++ deregistrationSample ++
      repair ++ unrecordedSample ++ registrationSample ++ closureSample ++ registrationSample)
    returnedStates (app.events .sample (nextCheck sampleOwner (List.replicate 7 .sample))) =
        [.enabled] ∧
      ((app.run .sample (nextCheck sampleOwner (List.replicate 7 .sample))).settings
        sampleOwner).success = .value (.success (recordSample 1700000000003)) :=
  @next_check_enabled .sample sampleOwner "device-token" _ _ _ Deps.sample_hexDigests (by decide +kernel)
    (by decide +kernel) (by decide +kernel) (by decide +kernel)
    (fun m hm => (List.eq_of_mem_replicate hm) ▸ ⟨rfl, rfl, rfl⟩) (by decide)

/-- The next registration leaves the marker; the check after it takes the record for one of a
    registration that was removed. -/
theorem leftover_marker_disables :
    let app := App.start fun _ => .empty
    let hs := registrationSample ++ deregistrationSample ++ registrationSample
    let after := app.run .sample hs
    let check := nextCheck sampleOwner (List.replicate 7 .sample)
    Machine.Along (App.step .sample)
        (fun app h => app.serial sampleOwner "device-token" h = true) app hs ∧
      after.isIdle = true ∧
      standing sampleOwner (app.events .sample hs) = some (recordSample 1700000000001) ∧
      (after.settings sampleOwner).success = .value (.success (recordSample 1700000000001)) ∧
      returnedStates (after.events .sample check) = [.disabled] ∧
      ((after.run .sample check).settings sampleOwner).success =
        .value (.tombstone (Deps.sample.repairTombstone ⟨sampleOwner, sampleVault⟩
          (some 1700000000))) := by
  decide +kernel

end DeadMansVault.Device
