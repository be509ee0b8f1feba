-- SUMMARY: The server's readiness domains, the calls that change them, and the health they add up to.
import Mathlib.Algebra.Order.Field.Rat
import Mathlib.Data.List.Induction

/-!
# Readiness

Seven domains say what the server may do. Each call here is one mutator of the
state holder, with all that it records; the booleans decide, and the rest is for
the health report. A value that the code only tests is what the test makes of it.
-/

namespace DeadMansVault.Notify

/-! ## Results of the probes -/

/-- `NET` -/
inductive NetState
  | verified
  | mismatch
  | unknown
  deriving DecidableEq, Repr

structure NetResult where
  state : NetState
  reason : Option String := none
  expectedGenesisHash : Option String := none
  receivedGenesisHash : Option String := none
  deriving DecidableEq, Repr

/-- How a value passes a test: as `true` itself, as another truthy value, or not. -/
inductive Truth
  | isTrue
  | truthy
  | falsy
  deriving DecidableEq, Repr

structure ProgramResult where
  ok : Truth
  executable : Option Bool := none
  /-- `res.state === NET.UNKNOWN` -/
  unknown : Bool := false
  reason : Option String := none
  deriving DecidableEq, Repr

structure ExecutorResult where
  ready : Bool
  reason : Option String := none
  disabled : Bool := false
  transient : Bool := false
  low : Bool := false
  /-- The balance, if it is a finite number. -/
  balanceSol : Option Rat := none
  deriving DecidableEq, Repr

/-- The metrics of a poll cycle. -/
structure PollMetrics where
  /-- The least number of failures that demotes; `none` stands for a number that none reaches. -/
  threshold : Option Rat := some 3
  checked : Option Rat := none
  readErrors : Option Rat := none
  deriving DecidableEq, Repr

/-! ## State -/

structure ProgramStatus where
  executable : Option Bool
  reason : Option String
  deriving DecidableEq, Repr

structure ExecutorStatus where
  reason : Option String
  disabled : Bool := false
  transient : Bool := false
  low : Bool := false
  deriving DecidableEq, Repr

structure PollerStatus where
  consecutiveFailures : Nat := 0
  lastOkAt : Option Int := none
  lastChecked : Option Rat := none
  lastReadErrors : Option Rat := none
  lastFailureRatio : Option Rat := none
  deriving DecidableEq, Repr

structure ReadinessState where
  apiReady : Bool := false
  fcmReady : Bool := false
  networkVerified : Bool := false
  programReady : Bool := false
  pollerReady : Bool := false
  executorReady : Bool := false
  fcmWaived : Bool
  executorWaived : Bool
  net : NetResult := { state := .unknown, reason := some "startup" }
  program : ProgramStatus := ⟨none, some "startup"⟩
  fcm : Option String := some "startup"
  executor : ExecutorStatus := { reason := some "startup" }
  crankerBalanceSol : Option Rat := none
  poller : PollerStatus := {}
  lastVerifiedAt : Option Int := none
  lastAttemptAt : Option Int := none
  backoffAttempt : Nat := 0
  deriving DecidableEq, Repr

namespace ReadinessState

/-- `computeEscalationReady` -/
def escalationReady (s : ReadinessState) : Bool :=
  s.fcmReady && s.networkVerified && s.pollerReady

inductive Health
  | ready
  | degraded
  | notReady
  deriving DecidableEq, Repr

/-- `deriveHealth` -/
def health (s : ReadinessState) : Health :=
  if s.apiReady = false then .notReady
  else if s.net.state = .mismatch then .notReady
  else if s.networkVerified && s.programReady && (s.fcmReady || s.fcmWaived) && s.pollerReady &&
      (s.executorReady || s.executorWaived) then .ready
  else .degraded

/-! ## Mutators -/

def applyNet (s : ReadinessState) (net : NetResult) (nowMs : Option Int) : ReadinessState :=
  if net.state = .verified then
    { s with
      net := net
      lastAttemptAt := nowMs
      networkVerified := true
      lastVerifiedAt := nowMs
      backoffAttempt := 0 }
  else
    { s with
      net := net
      lastAttemptAt := nowMs
      networkVerified := false
      programReady := false
      pollerReady := false
      executorReady := false
      program := ⟨none, some "network_unverified"⟩
      executor := { reason := some "network_unverified" }
      crankerBalanceSol := none }

def setFcm (s : ReadinessState) (ready : Bool) (reason : Option String) : ReadinessState :=
  { s with
    fcmReady := ready
    fcm := if reason.any (· ≠ "") then reason else s.fcm }

def setProgram (s : ReadinessState) (res : ProgramResult) : ReadinessState :=
  let s :=
    { s with
      program :=
        if res.ok = .falsy then ⟨if res.unknown then none else some false, res.reason⟩
        else ⟨res.executable, some "ok"⟩
      programReady := decide (res.ok = .isTrue) }
  if s.programReady then s else { s with executorReady := false, crankerBalanceSol := none }

def setExecutor (s : ReadinessState) (res : ExecutorResult) : ReadinessState :=
  { s with
    executorReady := res.ready && s.networkVerified && s.programReady
    executor := ⟨res.reason.filter (· ≠ ""), res.disabled, res.transient, res.low⟩
    crankerBalanceSol := res.balanceSol }

/-- The part of `recordPollResult` that is for the report. -/
def recordMetrics (poller : PollerStatus) (metrics : PollMetrics) : PollerStatus :=
  match metrics.checked with
  | none => poller
  | some checked =>
    { poller with
      lastChecked := some checked
      lastReadErrors := metrics.readErrors
      lastFailureRatio :=
        some (if 0 < checked then metrics.readErrors.getD 0 / checked else 0) }

def recordPollResult (s : ReadinessState) (ok : Bool) (nowMs : Option Int)
    (metrics : PollMetrics) : ReadinessState :=
  let poller := recordMetrics s.poller metrics
  if ok then
    { s with
      poller := { poller with consecutiveFailures := 0, lastOkAt := nowMs }
      pollerReady := s.networkVerified || s.pollerReady }
  else
    let failures := poller.consecutiveFailures + 1
    { s with
      poller := { poller with consecutiveFailures := failures }
      pollerReady := s.pollerReady && !metrics.threshold.any fun t => decide (t ≤ (failures : Rat)) }

end ReadinessState

/-! ## Runs -/

inductive ReadinessEvent
  | applyNet (net : NetResult) (nowMs : Option Int)
  | setFcm (ready : Bool) (reason : Option String)
  | setProgram (res : ProgramResult)
  | setExecutor (res : ExecutorResult)
  | recordPollResult (ok : Bool) (nowMs : Option Int) (metrics : PollMetrics)
  /-- `readiness.apiReady = true`, once the server listens -/
  | listen
  deriving DecidableEq, Repr

namespace ReadinessState

def apply (s : ReadinessState) : ReadinessEvent → ReadinessState
  | .applyNet net nowMs => s.applyNet net nowMs
  | .setFcm ready reason => s.setFcm ready reason
  | .setProgram res => s.setProgram res
  | .setExecutor res => s.setExecutor res
  | .recordPollResult ok nowMs metrics => s.recordPollResult ok nowMs metrics
  | .listen => { s with apiReady := true }

/-- From the constructor on. -/
def after (fcmWaived executorWaived : Bool) (es : List ReadinessEvent) : ReadinessState :=
  es.foldl apply { fcmWaived, executorWaived }

@[simp] theorem after_snoc (fcmWaived executorWaived : Bool) (es : List ReadinessEvent)
    (e : ReadinessEvent) :
    after fcmWaived executorWaived (es ++ [e]) = (after fcmWaived executorWaived es).apply e := by
  simp [after]

end ReadinessState

/-- How many failed cycles there have been since the last healthy one. -/
def failureStreak (es : List ReadinessEvent) : Nat :=
  es.foldl (fun n e =>
    match e with
    | .recordPollResult true _ _ => 0
    | .recordPollResult false _ _ => n + 1
    | _ => n) 0

namespace ReadinessState

/-! ## What a mutator leaves alone -/

variable (s : ReadinessState)

@[simp] theorem setFcm_pollerReady (ready : Bool) (reason : Option String) :
    (s.setFcm ready reason).pollerReady = s.pollerReady := rfl

@[simp] theorem setExecutor_pollerReady (res : ExecutorResult) :
    (s.setExecutor res).pollerReady = s.pollerReady := rfl

@[simp] theorem setProgram_pollerReady (res : ProgramResult) :
    (s.setProgram res).pollerReady = s.pollerReady := by
  unfold setProgram
  dsimp only
  split <;> rfl

@[simp] theorem setProgram_networkVerified (res : ProgramResult) :
    (s.setProgram res).networkVerified = s.networkVerified := by
  unfold setProgram
  dsimp only
  split <;> rfl

@[simp] theorem setProgram_fcmReady (res : ProgramResult) :
    (s.setProgram res).fcmReady = s.fcmReady := by
  unfold setProgram
  dsimp only
  split <;> rfl

@[simp] theorem setProgram_poller (res : ProgramResult) :
    (s.setProgram res).poller = s.poller := by
  unfold setProgram
  dsimp only
  split <;> rfl

/-- Neither transaction domain has a say in whether an escalation may go out. -/
theorem setExecutor_escalationReady (res : ExecutorResult) :
    (s.setExecutor res).escalationReady = s.escalationReady := rfl

theorem setProgram_escalationReady (res : ProgramResult) :
    (s.setProgram res).escalationReady = s.escalationReady := by
  simp [escalationReady]

/-! ## The counter of failed cycles -/

@[simp] theorem recordMetrics_consecutiveFailures (poller : PollerStatus) (m : PollMetrics) :
    (recordMetrics poller m).consecutiveFailures = poller.consecutiveFailures := by
  unfold recordMetrics
  cases m.checked <;> rfl

theorem applyNet_poller (net : NetResult) (nowMs : Option Int) :
    (s.applyNet net nowMs).poller = s.poller := by
  unfold applyNet
  split <;> rfl

theorem after_consecutiveFailures (fcmWaived executorWaived : Bool) (es : List ReadinessEvent) :
    (after fcmWaived executorWaived es).poller.consecutiveFailures = failureStreak es := by
  induction es using List.reverseRecOn with
  | nil => rfl
  | append_singleton es e ih =>
      rw [after_snoc]
      unfold failureStreak
      rw [List.foldl_append, ← failureStreak, ← ih]
      cases e with
      | applyNet net nowMs => simp [apply, applyNet_poller]
      | setFcm ready reason => rfl
      | setProgram res => simp [apply]
      | setExecutor res => rfl
      | recordPollResult ok nowMs m => cases ok <;> simp [apply, recordPollResult]
      | listen => rfl

/-! ## Subordination -/

/-- A domain that rests on another is up only while that one is. -/
structure Subordinate (s : ReadinessState) : Prop where
  executor : s.executorReady = true → s.networkVerified = true ∧ s.programReady = true
  poller : s.pollerReady = true → s.networkVerified = true

theorem Subordinate.apply {s : ReadinessState} (h : s.Subordinate) (e : ReadinessEvent) :
    (s.apply e).Subordinate := by
  cases e with
  | applyNet net nowMs =>
      simp only [ReadinessState.apply, applyNet]
      split
      · refine ⟨fun hup => ⟨rfl, (h.executor hup).2⟩, fun _ => rfl⟩
      · exact ⟨fun hup => Bool.noConfusion hup, fun hup => Bool.noConfusion hup⟩
  | setFcm ready reason => exact ⟨h.executor, h.poller⟩
  | setProgram res =>
      refine ⟨fun hup => ?_, fun hup => ?_⟩
      · simp only [ReadinessState.apply, setProgram] at hup ⊢
        -- A program that is not proven takes the executor down with it.
        split at hup
        next hok =>
          rw [if_pos hok]
          exact ⟨(h.executor hup).1, hok⟩
        next => cases hup
      · rw [ReadinessState.apply, setProgram_pollerReady] at hup
        rw [ReadinessState.apply, setProgram_networkVerified]
        exact h.poller hup
  | setExecutor res =>
      refine ⟨fun hup => ?_, h.poller⟩
      simp only [ReadinessState.apply, setExecutor, Bool.and_eq_true] at hup
      exact ⟨hup.1.2, hup.2⟩
  | recordPollResult ok nowMs m =>
      cases ok with
      | true =>
          refine ⟨h.executor, fun hup => ?_⟩
          simp only [ReadinessState.apply, recordPollResult, if_true, Bool.or_eq_true] at hup ⊢
          exact hup.elim id h.poller
      | false =>
          refine ⟨h.executor, fun hup => h.poller ?_⟩
          simp only [ReadinessState.apply, recordPollResult, Bool.and_eq_true, if_neg
            Bool.false_ne_true] at hup
          exact hup.1
  | listen => exact ⟨h.executor, h.poller⟩

theorem after_subordinate (fcmWaived executorWaived : Bool) (es : List ReadinessEvent) :
    (after fcmWaived executorWaived es).Subordinate := by
  induction es using List.reverseRecOn with
  | nil => exact ⟨fun hup => Bool.noConfusion hup, fun hup => Bool.noConfusion hup⟩
  | append_singleton es e ih =>
      rw [after_snoc]
      exact ih.apply e

/-! ## What moves the poller's domain -/

theorem pollerReady_lost {s : ReadinessState} {e : ReadinessEvent} (hup : s.pollerReady = true)
    (hdown : (s.apply e).pollerReady = false) :
    (∃ net nowMs, e = .applyNet net nowMs ∧ net.state ≠ .verified) ∨
      ∃ nowMs m t, e = .recordPollResult false nowMs m ∧ m.threshold = some t ∧
        t ≤ s.poller.consecutiveFailures + 1 := by
  cases e with
  | applyNet net nowMs =>
      refine Or.inl ⟨net, nowMs, rfl, fun hver => ?_⟩
      simp [apply, applyNet, hver, hup] at hdown
  | setFcm ready reason => simp [apply, hup] at hdown
  | setProgram res => simp [apply, hup] at hdown
  | setExecutor res => simp [apply, hup] at hdown
  | recordPollResult ok nowMs m =>
      cases ok with
      | true => simp [apply, recordPollResult, hup] at hdown
      | false =>
          refine Or.inr ⟨nowMs, m, ?_⟩
          cases hthreshold : m.threshold with
          | none => simp [apply, recordPollResult, hup, hthreshold] at hdown
          | some t =>
              refine ⟨t, rfl, rfl, ?_⟩
              simpa [apply, recordPollResult, hup, hthreshold] using hdown
  | listen => simp [apply, hup] at hdown

theorem pollerReady_gained {s : ReadinessState} {e : ReadinessEvent} (hdown : s.pollerReady = false)
    (hup : (s.apply e).pollerReady = true) :
    ∃ nowMs m, e = .recordPollResult true nowMs m ∧ s.networkVerified = true := by
  cases e with
  | applyNet net nowMs =>
      simp only [apply, applyNet] at hup
      split at hup <;> simp [hdown] at hup
  | setFcm ready reason => simp [apply, hdown] at hup
  | setProgram res => simp [apply, hdown] at hup
  | setExecutor res => simp [apply, hdown] at hup
  | recordPollResult ok nowMs m =>
      cases ok with
      | true => exact ⟨nowMs, m, rfl, by simpa [apply, recordPollResult, hdown] using hup⟩
      | false => simp [apply, recordPollResult, hdown] at hup
  | listen => simp [apply, hdown] at hup

theorem health_ready {s : ReadinessState} (h : s.health = .ready) :
    s.apiReady = true ∧ s.networkVerified = true ∧ s.programReady = true ∧
      s.pollerReady = true ∧ (s.fcmReady = true ∨ s.fcmWaived = true) ∧
      (s.executorReady = true ∨ s.executorWaived = true) := by
  unfold health at h
  split at h
  · cases h
  next hapi =>
    split at h
    · cases h
    · split at h
      next hall =>
        simp only [Bool.and_eq_true, Bool.or_eq_true] at hall
        obtain ⟨⟨⟨⟨hnet, hprog⟩, hfcm⟩, hpoll⟩, hexec⟩ := hall
        exact ⟨Bool.eq_true_of_not_eq_false hapi, hnet, hprog, hpoll, hfcm, hexec⟩
      · cases h

end ReadinessState

end DeadMansVault.Notify
