-- SUMMARY: The app on one device: its operations in flight over its storage, any of which may go on next.
import DeadMansVault.Library.Machine
import DeadMansVault.Device.Observer

/-!
# App

The storage outlives the process; the operations, the observer and their flags do
not. A write may reach the storage before its await ends, so that the process can
be killed in between: `Happening.land` is that moment. The settings of an owner are
those of the owner's vault under the app's cluster and program.
-/

namespace DeadMansVault.Device

/-! ## Operations in flight -/

/-- Phases that may await a write. -/
class Awaits (φ : Type) where
  write : φ → Option Write

def RegistrationPhase.write : RegistrationPhase → Option Write
  | storeRevision _ _ _ revision => some (.revision revision)
  | storeSuccess _ record => some (.success (.success record))
  | clearClosedVault _ _ => some .clearClosedVault
  | _ => none

def DeregistrationPhase.write : DeregistrationPhase → Option Write
  | storeTombstone _ tombstone => some (.success (.tombstone tombstone))
  | storeMarker _ time => some (.deregPending time)
  | clearClosedVault _ => some .clearClosedVault
  | _ => none

def ClosurePhase.write : ClosurePhase → Option Write
  | storeClosedVault tombstone => some (.closedVault tombstone)
  | _ => none

def CheckPhase.write : CheckPhase → Option Write
  | clearClosedVault => some .clearClosedVault
  | storeTombstone tombstone => some (.success (.tombstone tombstone))
  | clearDeregPending => some .clearDeregPending
  | storePending marker => some (.pending marker)
  | _ => none

instance : Awaits RegistrationPhase := ⟨RegistrationPhase.write⟩
instance : Awaits DeregistrationPhase := ⟨DeregistrationPhase.write⟩
instance : Awaits ClosurePhase := ⟨ClosurePhase.write⟩
instance : Awaits CheckPhase := ⟨CheckPhase.write⟩

/-- What happens to a write that a phase may await. -/
def Settings.settle (s : Settings) (w : Option Write) (result : WriteResult) : Settings :=
  match w with
  | some w => s.write w result
  | none => s

theorem RegistrationPhase.turn_settings (deps : Deps) (m : Moment) (s : Settings)
    (phase : RegistrationPhase) : (phase.turn deps m s).1 = s.settle phase.write m.write := by
  cases phase <;> simp only [turn, write, Settings.settle] <;> repeat' (split <;> try rfl)

theorem DeregistrationPhase.turn_settings (deps : Deps) (m : Moment) (s : Settings)
    (phase : DeregistrationPhase) : (phase.turn deps m s).1 = s.settle phase.write m.write := by
  cases phase <;> simp only [turn, write, Settings.settle] <;> repeat' (split <;> try rfl)

theorem ClosurePhase.turn_settings (deps : Deps) (m : Moment) (s : Settings)
    (phase : ClosurePhase) : (phase.turn deps m s).1 = s.settle phase.write m.write := by
  cases phase with
  | readSuccess =>
      simp only [turn, write, Settings.settle]
      repeat' (split <;> try rfl)
  | storeClosedVault => rfl

theorem CheckPhase.turn_settings (deps : Deps) (parties : Parties) (current : Bool) (m : Moment)
    (s : Settings) (phase : CheckPhase) :
    (phase.turn deps parties current m s).1 = s.settle phase.write m.write := by
  cases phase <;> simp only [turn, write, Settings.settle] <;> repeat' (split <;> try rfl)

structure Operation (φ : Type) where
  owner : String
  phase : φ
  /-- The write it awaits has reached the storage. -/
  landed : Bool := false
  deriving DecidableEq

/-- A check, with the generation it was started in. -/
structure Check extends Operation CheckPhase where
  vault : String
  generation : Nat
  deriving DecidableEq

def Check.parties (check : Check) : Parties := ⟨check.owner, check.vault⟩

/-! ## App -/

structure App where
  settings : String → Settings
  /-- `inFlight` is that there is one. -/
  registration : Option (Operation RegistrationPhase)
  /-- `deregInFlight` is that there is one. -/
  deregistration : Option (Operation DeregistrationPhase)
  closures : List (Operation ClosurePhase)
  checks : List Check
  generation : Nat
  disposed : Bool

/-- A process that has just begun. -/
def App.start (settings : String → Settings) : App where
  settings := settings
  registration := none
  deregistration := none
  closures := []
  checks := []
  generation := 0
  disposed := false

inductive Slot
  | registration
  | deregistration
  | closure (index : Nat)
  | check (index : Nat)
  deriving DecidableEq, Repr

inductive Happening
  | register (input : RegistrationInput)
  | deregister (input : DeregisterInput)
  | recordVaultClosure (input : VaultClosureInput)
  | checkNow (connectedOwner : Option String)
  | invalidate
  | dispose
  /-- The await of an operation ends. -/
  | resume (slot : Slot) (m : Moment)
  /-- A write that an operation awaits reaches the storage. -/
  | land (slot : Slot)
  /-- The process is killed, and begins again. -/
  | restart

inductive Event
  /-- The wallet was opened with a register message. -/
  | handed (fields : RegisterFields)
  /-- The server has accepted a registration. -/
  | registered (owner : String)
  /-- The server has accepted a deregistration. -/
  | deregistered (owner : String)
  /-- `setSetting` was called. -/
  | started (owner : String) (w : Write)
  | wrote (owner : String) (w : Write)
  | emitted (state : LifecycleState)
  | returned (connectedOwner : Option String) (state : LifecycleState)
  deriving DecidableEq

/-! ## Steps -/

def App.put (app : App) (owner : String) (s : Settings) : String → Settings :=
  Function.update app.settings owner s

section Operation

variable {φ ρ : Type} [Awaits φ]

/-- The write that is still to reach the storage. -/
def Operation.pending (op : Operation φ) : Option Write :=
  if op.landed then none else Awaits.write op.phase

def Operation.wrote (op : Operation φ) (result : WriteResult) : List Event :=
  if result.lands then (op.pending.map (Event.wrote op.owner)).toList else []

/-- A write that has landed before is not made again. -/
def Operation.settles (op : Operation φ) (s turned : Settings) : Settings :=
  if op.landed then s else turned

def Operation.next (op : Operation φ) : Next φ ρ → Option (Operation φ)
  | .wait phase => some ⟨op.owner, phase, false⟩
  | .finish _ => none
  | .threw => none

def Next.started (owner : String) : Next φ ρ → List Event
  | .wait phase => ((Awaits.write phase).map (Event.started owner)).toList
  | .finish _ => []
  | .threw => []

end Operation

def Delivery.registers : Delivery → Bool
  | lost accepted => accepted
  | answered res => decide (res.status = 201) || decide (res.status = 200)

def Delivery.deregisters : Delivery → Bool
  | lost accepted => accepted
  | answered res => decide (res.status = 200) && res.removed.any fun n => decide (n ≤ 1)

/-- What the wallet and the server see of a turn of a registration. -/
def Operation.reports (op : Operation RegistrationPhase) (m : Moment) :
    RegistrationNext → List Event
  | .wait (.sign _ fields) => [.handed fields]
  | _ =>
    match op.phase with
    | .post _ _ _ => if m.delivery.registers then [.registered op.owner] else []
    | _ => []

/-- What the server sees of a turn of a deregistration. -/
def Operation.deregReports (op : Operation DeregistrationPhase) (m : Moment) : List Event :=
  match op.phase with
  | .post _ _ _ _ => if m.delivery.deregisters then [.deregistered op.owner] else []
  | _ => []

/-- `emit` and the return after it. -/
def Next.emits {φ : Type} (current : Bool) (connectedOwner : Option String) :
    Next φ LifecycleState → List Event
  | .finish state => (if current then [.emitted state] else []) ++ [.returned connectedOwner state]
  | .wait _ => []
  | .threw => []

/-- The check is neither overtaken nor left behind by the end of the observer. -/
def App.isCurrent (app : App) (check : Check) : Bool :=
  decide (check.generation = app.generation) && !app.disposed

def App.resumeRegistration (deps : Deps) (app : App) (m : Moment)
    (op : Operation RegistrationPhase) : App × List Event :=
  let (turned, next) := op.phase.turn deps m (app.settings op.owner)
  ({ app with
      settings := app.put op.owner (op.settles (app.settings op.owner) turned)
      registration := op.next next },
    op.wrote m.write ++ op.reports m next ++ next.started op.owner)

def App.resumeDeregistration (deps : Deps) (app : App) (m : Moment)
    (op : Operation DeregistrationPhase) : App × List Event :=
  let (turned, next) := op.phase.turn deps m (app.settings op.owner)
  ({ app with
      settings := app.put op.owner (op.settles (app.settings op.owner) turned)
      deregistration := op.next next },
    op.wrote m.write ++ op.deregReports m ++ next.started op.owner)

def App.resumeClosure (deps : Deps) (app : App) (m : Moment) (index : Nat)
    (op : Operation ClosurePhase) : App × List Event :=
  let (turned, next) := op.phase.turn deps m (app.settings op.owner)
  ({ app with
      settings := app.put op.owner (op.settles (app.settings op.owner) turned)
      closures := (op.next next).elim (app.closures.eraseIdx index) (app.closures.set index) },
    op.wrote m.write ++ next.started op.owner)

def App.resumeCheck (deps : Deps) (app : App) (m : Moment) (index : Nat) (check : Check) :
    App × List Event :=
  let current := app.isCurrent check
  let (turned, next) := check.phase.turn deps check.parties current m (app.settings check.owner)
  ({ app with
      settings := app.put check.owner (check.settles (app.settings check.owner) turned)
      checks := (check.next next).elim (app.checks.eraseIdx index) fun op =>
        app.checks.set index { check with toOperation := op } },
    check.wrote m.write ++ next.started check.owner ++ next.emits current (some check.owner))

/-- The settings once the write of an operation has come to its result. -/
def App.written {φ : Type} [Awaits φ] (app : App) (op : Operation φ) (result : WriteResult) :
    String → Settings :=
  app.put op.owner ((app.settings op.owner).settle op.pending result)

def App.land (app : App) : Slot → App × List Event
  | .registration =>
    match app.registration with
    | none => (app, [])
    | some op =>
      ({ app with
          settings := app.written op .stored
          registration := some { op with landed := true } }, op.wrote .stored)
  | .deregistration =>
    match app.deregistration with
    | none => (app, [])
    | some op =>
      ({ app with
          settings := app.written op .stored
          deregistration := some { op with landed := true } }, op.wrote .stored)
  | .closure index =>
    match app.closures[index]? with
    | none => (app, [])
    | some op =>
      ({ app with
          settings := app.written op .stored
          closures := app.closures.set index { op with landed := true } }, op.wrote .stored)
  | .check index =>
    match app.checks[index]? with
    | none => (app, [])
    | some check =>
      ({ app with
          settings := app.written check.toOperation .stored
          checks := app.checks.set index { check with landed := true } }, check.wrote .stored)

def App.resume (deps : Deps) (app : App) (m : Moment) : Slot → App × List Event
  | .registration =>
    match app.registration with
    | none => (app, [])
    | some op => app.resumeRegistration deps m op
  | .deregistration =>
    match app.deregistration with
    | none => (app, [])
    | some op => app.resumeDeregistration deps m op
  | .closure index =>
    match app.closures[index]? with
    | none => (app, [])
    | some op => app.resumeClosure deps m index op
  | .check index =>
    match app.checks[index]? with
    | none => (app, [])
    | some check => app.resumeCheck deps m index check

def App.register (deps : Deps) (app : App) (input : RegistrationInput) : App :=
  match app.registration, deps.startRegistration input with
  | none, .wait phase => { app with registration := some ⟨input.owner, phase, false⟩ }
  | _, _ => app

def App.deregister (deps : Deps) (app : App) (input : DeregisterInput) : App :=
  match app.deregistration, deps.startDeregistration input with
  | none, .wait phase => { app with deregistration := some ⟨input.owner, phase, false⟩ }
  | _, _ => app

def App.recordVaultClosure (deps : Deps) (app : App) (input : VaultClosureInput) : App :=
  match deps.startClosure input with
  | .wait phase => { app with closures := app.closures ++ [⟨input.owner, phase, false⟩] }
  | _ => app

def App.checkNow (deps : Deps) (app : App) (connectedOwner : Option String) : App × List Event :=
  let app := { app with generation := app.generation + 1 }
  match deps.startCheck connectedOwner with
  | .wait parties =>
    ({ app with
        checks := app.checks ++
          [⟨⟨parties.owner, .readClosedVault, false⟩, parties.vault, app.generation⟩] }, [])
  | next => (app, next.emits (!app.disposed) connectedOwner)

def App.step (deps : Deps) : Machine App Happening Event := fun app h =>
  match h with
  | .register input => (app.register deps input, [])
  | .deregister input => (app.deregister deps input, [])
  | .recordVaultClosure input => (app.recordVaultClosure deps input, [])
  | .checkNow connectedOwner => app.checkNow deps connectedOwner
  | .invalidate => ({ app with generation := app.generation + 1 }, [])
  | .dispose => ({ app with disposed := true }, [])
  | .resume slot m => app.resume deps m slot
  | .land slot => app.land slot
  | .restart => (.start app.settings, [])

def App.run (deps : Deps) (app : App) (hs : List Happening) : App :=
  Machine.run (App.step deps) app hs

def App.events (deps : Deps) (app : App) (hs : List Happening) : List Event :=
  Machine.outputs (App.step deps) app hs

/-! ## What a step writes -/

theorem App.put_apply (app : App) (owner owner' : String) (s : Settings) :
    app.put owner s owner' = if owner' = owner then s else app.settings owner' := by
  rw [put, Function.update_apply]

section

variable {φ : Type} [Awaits φ] {app : App} {op : Operation φ} {m : Moment} {s turned : Settings}

/-- An operation has nothing to write, or its write is lost, or it is made. -/
theorem Operation.settle_cases (op : Operation φ) (s : Settings) (result : WriteResult) :
    (op.wrote result = [] ∧ s.settle op.pending result = s) ∨
    ∃ w, op.landed = false ∧ Awaits.write op.phase = some w ∧ result.lands = true ∧
      op.wrote result = [.wrote op.owner w] ∧ s.settle op.pending result = s.put w := by
  cases hpending : op.pending with
  | none =>
      refine .inl ⟨?_, rfl⟩
      rw [wrote, hpending]
      split <;> rfl
  | some w =>
      rw [wrote, hpending, Settings.settle, Settings.write]
      cases hlands : result.lands with
      | false => exact .inl ⟨rfl, rfl⟩
      | true =>
          rw [pending] at hpending
          split at hpending
          · cases hpending
          next hlanded =>
            exact .inr ⟨w, Bool.eq_false_iff.mpr hlanded, hpending, rfl, rfl, rfl⟩

/-- A turn leaves the settings to the write that its phase awaits. -/
theorem Operation.settles_eq (h : turned = s.settle (Awaits.write op.phase) m.write) :
    op.settles s turned = s.settle op.pending m.write := by
  rw [settles, pending]
  split
  · rfl
  · exact h

end

theorem App.resumeRegistration_settings (deps : Deps) (app : App) (m : Moment)
    (op : Operation RegistrationPhase) :
    (app.resumeRegistration deps m op).1.settings = app.written op m.write := by
  have hturn := RegistrationPhase.turn_settings deps m (app.settings op.owner) op.phase
  rw [App.written, ← Operation.settles_eq hturn]
  rfl

theorem App.resumeDeregistration_settings (deps : Deps) (app : App) (m : Moment)
    (op : Operation DeregistrationPhase) :
    (app.resumeDeregistration deps m op).1.settings = app.written op m.write := by
  have hturn := DeregistrationPhase.turn_settings deps m (app.settings op.owner) op.phase
  rw [App.written, ← Operation.settles_eq hturn]
  rfl

theorem App.resumeClosure_settings (deps : Deps) (app : App) (m : Moment) (index : Nat)
    (op : Operation ClosurePhase) :
    (app.resumeClosure deps m index op).1.settings = app.written op m.write := by
  have hturn := ClosurePhase.turn_settings deps m (app.settings op.owner) op.phase
  rw [App.written, ← Operation.settles_eq hturn]
  rfl

theorem App.resumeCheck_settings (deps : Deps) (app : App) (m : Moment) (index : Nat)
    (check : Check) :
    (app.resumeCheck deps m index check).1.settings = app.written check.toOperation m.write := by
  have hturn := CheckPhase.turn_settings deps check.parties (app.isCurrent check) m
    (app.settings check.owner) check.phase
  rw [App.written, ← Operation.settles_eq hturn]
  rfl

/-! ## A device -/

def sampleOwner : String := "4wBqpZM9xaSheZzJSMawUKKwhdpChKbZ5eu5ky4Vigw"
def sampleVault : String := "EFwuF5pCEaLuWPFF5o39pDRpCiE6UJZWq13oeCobz5j1"

/-- What one owner's app with one device token works with. -/
def Deps.sample : Deps where
  cluster := expectedCluster
  programId := expectedProgramId
  deriveVault owner := if owner = sampleOwner then some sampleVault else none
  toBase58 key := if key = sampleOwner ∨ key = sampleVault then some key else none
  sha256Hex _ := "73fff793651a92729a8553521d5f1c55c9cb417046f1dc0f82b22fc4930b82b3"
  buildRegisterMessage fields := some ("action=register owner=" ++ fields.owner)
  buildDeregisterMessage fields := some ("action=deregister owner=" ++ fields.owner)
  encode bytes := some (String.ofList (bytes.map fun _ => '1'))

/-- Everything works, and the server accepts. -/
def Moment.sample : Moment where
  deviceToken := some (some "device-token")
  signature := some (List.replicate 64 0)
  delivery := .answered { status := 200, removed := some 1 }
  nowMs := some 1700000000000
  nowSec := some 1700000000
  nonce := some "2222222222222222222222"

def RegistrationInput.sample : RegistrationInput := ⟨sampleOwner, some 60, some 75, some 90⟩

/-- A registration from the tap to its end. -/
def registrationSample : List Happening :=
  .register .sample :: List.replicate 8 (.resume .registration .sample)

end DeadMansVault.Device
