-- SUMMARY: The app's escalation: its service, the store that outlives the service, and the execution it triggers.
import DeadMansVault.Library.Machine

/-!
# Escalation

The screen creates an `EscalationService` each time its effect runs, and stops the
one before. A service evaluates the heartbeat when it is started and whenever its
timer fires; an evaluation awaits the database, and goes on even if the service has
been stopped in between. At stage 4 the service fires the execution once: the store's
`executionStarted` is there to keep a later service from firing it again. An execution
runs while other events go by, and its module lets only one run at a time.
-/

namespace DeadMansVault.Device

abbrev EscalationStage := Fin 5

structure EscalationConfig where
  stage1Duration : Int
  stage2Duration : Int
  stage3Duration : Int
  deriving DecidableEq, Repr

/-- What an evaluation reads of a `HeartbeatStatus`. -/
structure HeartbeatStatus where
  lastHeartbeat : Int
  isOverdue : Bool
  secondsOverdue : Int
  deriving DecidableEq, Repr

/-- `useEscalationStore`; the times in it are only shown. -/
structure EscalationState where
  stage : EscalationStage := 0
  executionStarted : Bool := false
  deriving DecidableEq, Repr

structure EscalationService where
  /-- The interval of its heartbeat service. -/
  intervalSeconds : Int
  config : EscalationConfig
  currentStage : EscalationStage
  /-- The timer is set. -/
  evaluationInterval : Bool
  /-- There is a wallet to execute for. -/
  executionCallback : Bool
  /-- Calls of `evaluate` that await the status. -/
  evaluating : Nat
  deriving DecidableEq, Repr

namespace EscalationService

variable (service : EscalationService)

/-- `HeartbeatService.getStatus`, from the last heartbeat in the database and the time. -/
def getStatus (last : Option Int) (now : Int) : HeartbeatStatus :=
  match last with
  | none => { lastHeartbeat := 0, isOverdue := false, secondsOverdue := 0 }
  | some timestamp =>
    let nextDue := timestamp + service.intervalSeconds
    let secondsOverdue := max 0 (now - nextDue)
    { lastHeartbeat := timestamp, isOverdue := decide (0 < secondsOverdue), secondsOverdue }

def calculateStage (secondsOverdue : Int) : EscalationStage :=
  if secondsOverdue ≤ 0 then 0
  else
    let s1End := service.config.stage1Duration
    let s2End := s1End + service.config.stage2Duration
    let s3End := s2End + service.config.stage3Duration
    if secondsOverdue < s1End then 1
    else if secondsOverdue < s2End then 2
    else if secondsOverdue < s3End then 3
    else 4

end EscalationService

/-- How `ExecutionService.execute` leaves its `try`. -/
inductive RunEnd
  /-- There is no config. -/
  | noConfig
  /-- Some call has failed where nothing catches it. -/
  | threw
  /-- All steps are done; the log that is read last, if there is one, says so or not. -/
  | finished (finalLog : Option Bool)
  deriving DecidableEq, Repr

/-- The run has seen the execution completed. -/
def RunEnd.completed (e : RunEnd) : Bool := e = .finished (some true)

/-- One process of the app. -/
structure Escalation where
  store : EscalationState := {}
  /-- Every service that was ever created; a stopped one may still be evaluating. -/
  services : List EscalationService := []
  globalExecutionInProgress : Bool := false
  /-- Executions in flight. -/
  runs : Nat := 0
  /-- The vault's execution has completed, on the chain. -/
  completed : Bool := false
  deriving DecidableEq, Repr

inductive EscalationEvent
  /-- The effect runs: a service is created, wired and started. -/
  | created (owner : Bool) (intervalSeconds : Int) (config : EscalationConfig)
  /-- `stop`, by the effect or its cleanup. -/
  | stopped (i : Nat)
  | ticked (i : Nat)
  /-- `getStatus` answers an evaluation with the last heartbeat and the time, or throws. -/
  | evaluated (i : Nat) (answer : Option (Option Int × Int))
  /-- A heartbeat is recorded, and the service reset. -/
  | heartbeat (i : Nat)
  | runEnded (e : RunEnd)
  /-- Another crank completes the execution. -/
  | completedElsewhere
  deriving DecidableEq, Repr

inductive EscalationOutput
  | runStarted
  deriving DecidableEq, Repr

namespace Escalation

def update (s : Escalation) (i : Nat) (f : EscalationService → EscalationService) : Escalation :=
  { s with services := s.services.modify i f }

def stop (s : Escalation) (i : Nat) : Escalation :=
  s.update i fun service => { service with evaluationInterval := false }

def resetEscalation (s : Escalation) (i : Nat) : Escalation :=
  { s.update i fun service => { service with currentStage := 0 } with store := {} }

/-- `execute`, up to its first `await`. -/
def execute (s : Escalation) : Escalation × List EscalationOutput :=
  if s.globalExecutionInProgress then (s, [])
  else ({ s with globalExecutionInProgress := true, runs := s.runs + 1 }, [.runStarted])

/-- The stage of the service and that of the store. -/
def setStage (s : Escalation) (i : Nat) (stage : EscalationStage) : Escalation :=
  { s.update i fun service => { service with currentStage := stage } with
    store := { s.store with stage } }

def setExecutionStarted (s : Escalation) : Escalation :=
  { s with store := { s.store with executionStarted := true } }

def transitionTo (s : Escalation) (i : Nat) (service : EscalationService)
    (newStage : EscalationStage) : Escalation × List EscalationOutput :=
  let s := s.setStage i newStage
  if newStage = 4 then
    let s := s.stop i
    if s.store.executionStarted then (s, [])
    else
      let s := s.setExecutionStarted
      if service.executionCallback then s.execute else (s, [])
  else (s, [])

/-- `evaluate`, once it has the status. -/
def evaluate (s : Escalation) (i : Nat) (service : EscalationService) (status : HeartbeatStatus) :
    Escalation × List EscalationOutput :=
  if status.lastHeartbeat = 0 then (s, [])
  else if status.isOverdue = false then
    if 0 < service.currentStage then (s.resetEscalation i, []) else (s, [])
  else
    let newStage := service.calculateStage status.secondsOverdue
    if newStage ≠ service.currentStage then s.transitionTo i service newStage else (s, [])

/-- `evaluate` is called. -/
def call (s : Escalation) (i : Nat) : Escalation :=
  s.update i fun service => { service with evaluating := service.evaluating + 1 }

/-- The end of `execute`, with its `finally`. -/
def runEnded (s : Escalation) (e : RunEnd) : Escalation :=
  let s := if e.completed then { s with store := {}, completed := true } else s
  { s with globalExecutionInProgress := false, runs := s.runs - 1 }

/-- The constructor takes the stage from the store. -/
def create (s : Escalation) (owner : Bool) (intervalSeconds : Int) (config : EscalationConfig) :
    Escalation :=
  { s with
    services := s.services ++ [{
      intervalSeconds, config
      currentStage := s.store.stage
      evaluationInterval := true
      executionCallback := owner
      evaluating := 1 }] }

def step : Machine Escalation EscalationEvent EscalationOutput := fun s event =>
  match event with
  | .created owner intervalSeconds config => (s.create owner intervalSeconds config, [])
  | .stopped i => (s.stop i, [])
  | .ticked i =>
    if s.services[i]?.any (·.evaluationInterval) then (s.call i, []) else (s, [])
  | .evaluated i answer =>
    match s.services[i]? with
    | none => (s, [])
    | some service =>
      if service.evaluating = 0 then (s, [])
      else
        let s := s.update i fun service => { service with evaluating := service.evaluating - 1 }
        match answer with
        | none => (s, [])
        | some (last, now) => s.evaluate i service (service.getStatus last now)
  | .heartbeat i => (s.resetEscalation i, [])
  | .runEnded e => if s.runs = 0 then (s, []) else (s.runEnded e, [])
  | .completedElsewhere => ({ s with completed := true }, [])

/-- The service whose evaluation finds stage 4 here. -/
def stageFour (s : Escalation) : EscalationEvent → Option EscalationService
  | .evaluated i (some (last, now)) => s.services[i]?.filter fun service =>
      let status := service.getStatus last now
      service.evaluating ≠ 0 ∧ status.lastHeartbeat ≠ 0 ∧ status.isOverdue = true ∧
        service.calculateStage status.secondsOverdue = 4
  | _ => none

/-! ## What an evaluation can do -/

/-- The flag tells whether the one run is in flight. -/
def Single (s : Escalation) : Prop :=
  s.runs = s.globalExecutionInProgress.toNat

/-- Nothing is fired, and the latch is not set; it may be cleared. -/
structure Quiet (s : Escalation) (answer : Escalation × List EscalationOutput) : Prop where
  runs : answer.1.runs = s.runs
  flag : answer.1.globalExecutionInProgress = s.globalExecutionInProgress
  completed : answer.1.completed = s.completed
  latch : answer.1.store.executionStarted = true → s.store.executionStarted = true
  silent : answer.2 = []

variable {s : Escalation}

theorem Single.le (h : s.Single) : s.runs ≤ 1 := by
  rw [h]
  exact s.globalExecutionInProgress.toNat_le

theorem Single.idle (h : s.Single) (hruns : s.runs = 0) : s.globalExecutionInProgress = false := by
  cases hflag : s.globalExecutionInProgress with
  | false => rfl
  | true =>
      rw [Single, hflag] at h
      exact absurd (hruns.symm.trans h) (by decide)

theorem Single.execute (h : s.Single) : s.execute.1.Single := by
  unfold Escalation.execute
  cases hflag : s.globalExecutionInProgress with
  | false =>
      rw [Single, hflag] at h
      simp only [Single, Bool.false_eq_true, if_false, h]
      rfl
  | true =>
      simp only [if_true]
      exact h

theorem Single.runEnded (h : s.Single) (e : RunEnd) : (s.runEnded e).Single := by
  have hle := h.le
  have hruns : (s.runEnded e).runs = s.runs - 1 := by
    unfold Escalation.runEnded
    split <;> rfl
  rw [Single, hruns]
  show s.runs - 1 = 0
  omega

theorem Quiet.refl (s : Escalation) : Quiet s (s, []) := ⟨rfl, rfl, rfl, id, rfl⟩

theorem Quiet.reset (s : Escalation) (i : Nat) : Quiet s (s.resetEscalation i, []) :=
  ⟨rfl, rfl, rfl, nofun, rfl⟩

theorem Quiet.single {answer : Escalation × List EscalationOutput} (h : Quiet s answer)
    (hs : s.Single) : answer.1.Single := by
  rw [Single, h.runs, h.flag]
  exact hs

variable {i : Nat} {service : EscalationService} {newStage : EscalationStage}

@[simp] theorem setStage_executionStarted (s : Escalation) (i : Nat) (stage : EscalationStage) :
    (s.setStage i stage).store.executionStarted = s.store.executionStarted := rfl

@[simp] theorem stop_store (s : Escalation) (i : Nat) : (s.stop i).store = s.store := rfl

theorem quiet_transitionTo (h : newStage = 4 → s.store.executionStarted = true) :
    Quiet s (s.transitionTo i service newStage) := by
  unfold transitionTo
  by_cases hfour : newStage = 4
  · simp only [if_pos hfour, stop_store, setStage_executionStarted, h hfour, if_true]
    exact ⟨rfl, rfl, rfl, id, rfl⟩
  · simp only [if_neg hfour]
    exact ⟨rfl, rfl, rfl, id, rfl⟩

/-- Stage 4 is entered for the first time. -/
def latched (s : Escalation) (i : Nat) : Escalation :=
  ((s.setStage i 4).stop i).setExecutionStarted

theorem transitionTo_four (h : s.store.executionStarted = false) :
    s.transitionTo i service 4 =
      if service.executionCallback then (s.latched i).execute else (s.latched i, []) := by
  unfold transitionTo
  simp only [if_true, stop_store, setStage_executionStarted, h, Bool.false_eq_true, if_false]
  rfl

/-- An evaluation that does not find stage 4 fires nothing. -/
theorem quiet_evaluate {status : HeartbeatStatus}
    (h : status.lastHeartbeat ≠ 0 → status.isOverdue = true →
      service.calculateStage status.secondsOverdue = 4 →
      service.currentStage = 4 ∨ s.store.executionStarted = true) :
    Quiet s (s.evaluate i service status) := by
  unfold evaluate
  by_cases hnone : status.lastHeartbeat = 0
  · rw [if_pos hnone]
    exact .refl s
  · rw [if_neg hnone]
    by_cases hdue : status.isOverdue = false
    · rw [if_pos hdue]
      split
      · exact .reset s i
      · exact .refl s
    · rw [if_neg hdue]
      by_cases hsame : service.calculateStage status.secondsOverdue = service.currentStage
      · simp only [hsame, ne_eq, not_true, if_false]
        exact .refl s
      · simp only [ne_eq, hsame, not_false_eq_true, if_true]
        refine quiet_transitionTo fun hfour => ?_
        refine (h hnone (eq_true_of_ne_false hdue) hfour).resolve_left fun hcurrent => hsame ?_
        rw [hfour, hcurrent]

/-- The first evaluation to find stage 4 sets the latch, and fires what is to be fired. -/
theorem evaluate_four {status : HeartbeatStatus} (hsome : status.lastHeartbeat ≠ 0)
    (hdue : status.isOverdue = true) (hfour : service.calculateStage status.secondsOverdue = 4)
    (hcurrent : service.currentStage ≠ 4) (hlatch : s.store.executionStarted = false) :
    s.evaluate i service status =
      if service.executionCallback then (s.latched i).execute else (s.latched i, []) := by
  unfold evaluate
  rw [if_neg hsome, if_neg (by rw [hdue]; decide)]
  simp only [hfour]
  rw [if_pos hcurrent.symm]
  exact transitionTo_four hlatch

end Escalation

end DeadMansVault.Device
