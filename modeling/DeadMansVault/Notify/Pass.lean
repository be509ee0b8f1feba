-- SUMMARY: The poller's pass over one registration, await by await, with the push and the executor it starts.
import DeadMansVault.Notify.Poller

/-!
# A pass, await by await

`processRegistration` runs without interruption from one await to the next. What
it reads of its surroundings in such a turn cannot change within the turn, and
can change in any way between two turns. The answers to its awaits come with any
latency. `sendPush` is a part of the pass, with the awaits of its own; the
executor is seen through the guard that it evaluates before each submission.
-/

namespace DeadMansVault.Notify

/-- What a turn reads of its surroundings. -/
structure Moment where
  networkVerified : Bool
  executorReady : Bool
  fcmWaived : Bool
  /-- The FCM client and its project are there. -/
  fcmConfigured : Bool
  /-- An unverified network takes the executor's readiness away. -/
  executorReady_verified : executorReady = true → networkVerified = true

/-- What a turn does to the outside. -/
inductive Deed
  /-- The FCM request is started. -/
  | request (deviceToken : String) (message : Message)
  /-- The executor starts a submission. -/
  | submission
  | updateNotifyState (lastStage : Nat) (lastNotifiedAt : Int)
  | deleteRegistration
  deriving DecidableEq

/-! ## Awaits -/

/-- The awaits of `sendPush`. -/
inductive SendPhase
  | token
  | response
  | body (status : Nat)
  deriving DecidableEq

/-- What a pass awaits. -/
inductive Phase
  | reading
  | probing
  /-- The executor of a vault in its last stage; it is `revoked` once its guard has failed. -/
  | executing (escalation : Escalation) (revoked : Bool)
  | sending (notice : Notice) (message : Message) (phase : SendPhase)

structure Pass where
  /-- The registration, as it was when the cycle began. -/
  row : Row
  now : Int
  state : Option VaultState := none
  phase : Phase := .reading

/-- What an await gives. -/
inductive Answer
  /-- The vault's state, or the read threw. -/
  | state (read : Option VaultState)
  /-- Whether the program was found, or the probe threw. -/
  | program (ok : Option Bool)
  /-- The executor comes to its guard. -/
  | guard
  /-- The executor has ended, in whatever way. -/
  | executor
  | token (acquired : Bool)
  /-- The status of the response, or the request failed. -/
  | response (status : Option Nat)
  /-- The error code in the body, or the deadline cut it off. -/
  | body (code : Option String)

/-- How a turn ends. -/
inductive Next
  | wait (pass : Pass)
  | finish (action : Action)
  | threw

structure Turn where
  deeds : List Deed := []
  next : Next

/-! ## Turns -/

/-- The result of a push whose body has been read. -/
def sendResult (status : Nat) : Option String → SendResult
  | none => .failed
  | some code =>
    if 200 ≤ status ∧ status < 300 then .ok
    else if code = "UNREGISTERED" ∨ status = 404 then .unregistered
    else .failed

/-- What becomes of the registration after its push. -/
def Pass.settle (p : Pass) (notice : Notice) (result : SendResult) : Turn :=
  match notice, result with
  | _, .suppressed => { next := .finish .netUnverified }
  | .complete, .ok | .complete, .unregistered =>
    { deeds := [.deleteRegistration], next := .finish .deregisteredInactive }
  | .stage _, .unregistered =>
    { deeds := [.deleteRegistration], next := .finish .deregisteredUnregistered }
  | .stage stage, .ok => { deeds := [.updateNotifyState stage p.now], next := .finish .sent }
  | _, .failed => { next := .finish .sendFailed }

/-- `sendPush` up to its first await. -/
def Pass.sendPush (m : Moment) (p : Pass) (notice : Notice) (message : Message) : Turn :=
  if m.fcmConfigured = false then p.settle notice .failed
  else { next := .wait { p with phase := .sending notice message .token } }

/-- A push of this stage is due. -/
def Row.pushDue (row : Row) (now : Int) (stage : Nat) : Prop :=
  row.lastStage < stage ∨
  (stage = row.lastStage ∧ 1 ≤ stage ∧ stage ≤ 3 ∧
    stageRecurInterval stage ≤ now - row.lastNotifiedAt) ∨
  (stage = 4 ∧ row.lastStage ≠ 4)

instance (row : Row) (now : Int) (stage : Nat) : Decidable (row.pushDue now stage) :=
  inferInstanceAs (Decidable (_ ∨ _ ∨ _))

/-- The pass behind the executor. -/
def Pass.remind (live : Bool) (m : Moment) (p : Pass) (escalation : Escalation) : Turn :=
  let stage := escalation.stage
  if ¬ p.row.pushDue p.now stage then { next := .finish .noChange }
  else match stageMessage (formatDuration escalation.secondsToExecution) (.stage stage) with
  | none => { next := .finish .noMsg }
  | some msg =>
    if live = false then { next := .finish .timeout }
    else if m.networkVerified = false then { next := .finish .netUnverified }
    else p.sendPush m (.stage stage) msg

/-- The pass over an active vault whose heartbeat is known. -/
def Pass.escalate (live : Bool) (m : Moment) (p : Pass) (escalation : Escalation) : Turn :=
  if escalation.stage = 0 then
    { deeds := if p.row.lastStage ≠ 0 then [.updateNotifyState 0 0] else []
      next := .finish .normal }
  else if escalation.stage = 4 ∧ m.executorReady = true then
    { next := .wait { p with phase := .executing escalation false } }
  else p.remind live m escalation

/-- The pass over a vault that is inactive or executed. -/
def Pass.dropInactive (m : Moment) (p : Pass) (executed : Bool) : Turn :=
  let plain : Turn :=
    if m.networkVerified = false then { next := .finish .netUnverified }
    else { deeds := [.deleteRegistration], next := .finish .deregisteredInactive }
  if executed = true ∧ p.row.lastStage = 4 ∧ m.fcmWaived = false then
    match stageMessage "" .complete with
    | none => plain
    | some msg => p.sendPush m .complete msg
  else plain

/-- The pass behind the read of the vault. -/
def Pass.act (num : Arithmetic) (live : Bool) (m : Moment) (p : Pass) (state : VaultState) : Turn :=
  let p := { p with state := some state }
  if live = false then { next := .finish .timeout }
  else if m.networkVerified = false then { next := .finish .netUnverified }
  else match state.config with
  | none => { next := .wait { p with phase := .probing } }
  | some config =>
    if config.active = false ∨ config.executed = true then p.dropInactive m config.executed
    else match state.lastHeartbeat with
    | none => { next := .finish .noHeartbeat }
    | some lastHeartbeat =>
      p.escalate live m
        (computeStage num lastHeartbeat config.heartbeatInterval p.row.stages p.now)

/-- The pass behind the probe of the program. -/
def Pass.probed (live : Bool) (m : Moment) (ok : Bool) : Turn :=
  if live = false then { next := .finish .timeout }
  else if m.networkVerified = false then { next := .finish .netUnverified }
  else if ok = false then { next := .finish .programUnready }
  else { deeds := [.deleteRegistration], next := .finish .deregisteredMissing }

/-- `sendPush` behind the acquisition of the access token. -/
def Pass.send (live : Bool) (m : Moment) (p : Pass) (notice : Notice) (message : Message)
    (acquired : Bool) : Turn :=
  if acquired = false then p.settle notice .failed
  else if ¬ (live = true ∧ m.networkVerified = true) then p.settle notice .suppressed
  else {
    deeds := [.request p.row.deviceToken message]
    next := .wait { p with phase := .sending notice message .response } }

/-- The executor at its guard. -/
def Pass.submit (live : Bool) (m : Moment) (p : Pass) (escalation : Escalation) (revoked : Bool) :
    Turn :=
  if revoked = false ∧ live = true ∧ m.executorReady = true then
    { deeds := [.submission], next := .wait p }
  else { next := .wait { p with phase := .executing escalation true } }

/-- The pass up to its first await. -/
def processRegistrationTurn (m : Moment) (row : Row) (now : Int) : Turn :=
  if m.networkVerified = false then { next := .finish .netUnverified }
  else { next := .wait { row, now } }

/-- The pass goes on with an answer; one that is not for its await leaves it as it is. -/
def Pass.resume (num : Arithmetic) (live : Bool) (m : Moment) (p : Pass) (answer : Answer) : Turn :=
  match p.phase, answer with
  | .reading, .state none => { next := .finish .readError }
  | .reading, .state (some state) => p.act num live m state
  | .probing, .program none => { next := .threw }
  | .probing, .program (some ok) => Pass.probed live m ok
  | .executing escalation revoked, .guard => p.submit live m escalation revoked
  | .executing escalation _, .executor => p.remind live m escalation
  | .sending notice message .token, .token acquired => p.send live m notice message acquired
  | .sending notice _ .response, .response none => p.settle notice .failed
  | .sending notice message .response, .response (some status) =>
    { next := .wait { p with phase := .sending notice message (.body status) } }
  | .sending notice _ (.body status), .body code => p.settle notice (sendResult status code)
  | _, _ => { next := .wait p }

/-! ## The pass as a whole -/

/-- What the registration's pass changes in the store. -/
inductive Change
  | updateNotifyState (lastStage : Nat) (lastNotifiedAt : Int)
  | deleteRegistration
  deriving DecidableEq

def Deed.change : Deed → Option Change
  | updateNotifyState lastStage lastNotifiedAt => some (.updateNotifyState lastStage lastNotifiedAt)
  | deleteRegistration => some .deleteRegistration
  | request .. | submission => none

def Effect.change : Effect → Option Change
  | updateNotifyState lastStage lastNotifiedAt => some (.updateNotifyState lastStage lastNotifiedAt)
  | deleteRegistration => some .deleteRegistration
  | runExecutor | push .. => none

def Surroundings.moment (env : Surroundings) (networkVerified : Bool) : Moment where
  networkVerified := networkVerified
  executorReady := env.executorReady && networkVerified
  fcmWaived := env.fcmWaived
  fcmConfigured := true
  executorReady_verified h := (Bool.and_eq_true _ _ ▸ h).2

/-- The turn of a pass that goes on as the surroundings say. -/
def Pass.next (num : Arithmetic) (env : Surroundings) (read : Option VaultState) (p : Pass) : Turn :=
  let turn (checkpoint : Checkpoint) (answer : Answer) : Turn :=
    p.resume num (env.isLive checkpoint) (env.moment (env.networkVerified checkpoint)) answer
  match p.phase with
  | .reading => turn .read (.state read)
  | .probing => turn .probe (.program (some env.programOk))
  | .executing .. => turn .executor .executor
  | .sending _ _ .token =>
    p.resume num true (env.moment (decide (env.send ≠ .suppressed))) (.token true)
  | .sending _ _ .response =>
    p.resume num true (env.moment true) (.response (match env.send with
      | .ok => some 200
      | .unregistered => some 404
      | .suppressed | .failed => none))
  | .sending _ _ (.body _) => p.resume num true (env.moment true) (.body (some ""))

/-- The changes of a pass and its action, in so many turns. -/
def Turn.follow (num : Arithmetic) (env : Surroundings) (read : Option VaultState) :
    Nat → Turn → List Change × Option Action
  | 0, turn => (turn.deeds.filterMap Deed.change, none)
  | n + 1, turn =>
    match turn.next with
    | .finish action => (turn.deeds.filterMap Deed.change, some action)
    | .threw => (turn.deeds.filterMap Deed.change, none)
    | .wait p =>
      let rest := (p.next num env read).follow num env read n
      (turn.deeds.filterMap Deed.change ++ rest.1, rest.2)

section Follow

variable {num : Arithmetic} {env : Surroundings} {read : Option VaultState}

theorem Turn.follow_wait (p : Pass) (n : Nat) :
    Turn.follow num env read (n + 1) { next := .wait p } =
      (p.next num env read).follow num env read n := by
  simp [Turn.follow]

/-- A push ends as the surroundings say. -/
theorem Pass.sendPush_follow {m : Moment} (hconfigured : m.fcmConfigured = true) (p : Pass)
    (notice : Notice) (message : Message) (n : Nat) :
    (p.sendPush m notice message).follow num env read (n + 4) =
      (p.settle notice env.send).follow num env read 1 := by
  unfold Pass.sendPush
  rw [if_neg (by simp [hconfigured])]
  cases hsend : env.send with
  | suppressed | unregistered | ok | failed =>
      cases notice <;>
        simp [Turn.follow, Pass.next, Pass.resume, Pass.send, hsend, Surroundings.moment,
          Pass.settle, sendResult, Deed.change]

/-- The pass behind the executor makes the changes of the report, and ends with its action. -/
theorem Pass.remind_follow {live : Bool} {m : Moment} (hconfigured : m.fcmConfigured = true)
    (p : Pass) (escalation : Escalation) (hlive : live = env.isLive .executor)
    (hverified : m.networkVerified = env.networkVerified .executor) (hstage : escalation.stage ≠ 0)
    (n : Nat) :
    let report := Notify.escalate p.row p.now env escalation
    (p.remind live m escalation).follow num env read (n + 4) =
      (report.effects.filterMap Effect.change, some report.action) := by
  dsimp only
  unfold Pass.remind Notify.escalate
  dsimp only
  rw [if_neg hstage]
  have hdriven : (if escalation.stage = 4 ∧ env.executorReady = true then [Effect.runExecutor]
      else []).filterMap Effect.change = [] := by
    split <;> rfl
  generalize (if escalation.stage = 4 ∧ env.executorReady = true then [Effect.runExecutor]
    else []) = driven at hdriven ⊢
  by_cases hdue : p.row.pushDue p.now escalation.stage
  · rw [if_neg (not_not.mpr hdue), if_neg (by simpa only [Row.pushDue, ← not_or, not_not] using hdue)]
    cases stageMessage (formatDuration escalation.secondsToExecution) (.stage escalation.stage) with
    | none => exact Prod.ext hdriven.symm rfl
    | some msg =>
        dsimp only
        rw [hlive, hverified]
        cases env.isLive .executor with
        | false => exact Prod.ext hdriven.symm rfl
        | true =>
            cases env.networkVerified .executor with
            | false => exact Prod.ext hdriven.symm rfl
            | true =>
                simp only [Bool.true_eq_false, if_false]
                rw [Pass.sendPush_follow hconfigured]
                cases env.send <;>
                  simp [Turn.follow, Pass.settle, hdriven, Deed.change, Effect.change,
                    List.filterMap_cons]
  · rw [if_pos hdue, if_pos (by simpa only [Row.pushDue, ← not_or] using hdue)]
    exact Prod.ext hdriven.symm rfl

/-- The pass over an inactive vault. -/
theorem Pass.dropInactive_follow {m : Moment} (hconfigured : m.fcmConfigured = true) (p : Pass)
    (executed : Bool) (hverified : m.networkVerified = env.networkVerified .inactive)
    (hwaived : m.fcmWaived = env.fcmWaived) (n : Nat) :
    let report := Notify.dropInactive p.row env executed
    (p.dropInactive m executed).follow num env read (n + 4) =
      (report.effects.filterMap Effect.change, some report.action) := by
  dsimp only
  unfold Pass.dropInactive Notify.dropInactive
  rw [hwaived, hverified]
  dsimp only
  generalize hturn : (if env.networkVerified .inactive = false then
      ({ next := .finish .netUnverified } : Turn)
    else { deeds := [.deleteRegistration], next := .finish .deregisteredInactive }) = plain
  generalize hreport : (if env.networkVerified .inactive = false then
      ({ effects := [], action := .netUnverified } : Report)
    else { effects := [.deleteRegistration], action := .deregisteredInactive }) = report
  have hplain : plain.follow num env read (n + 4) =
      (report.effects.filterMap Effect.change, some report.action) := by
    rw [← hturn, ← hreport]
    split <;> rfl
  split
  · cases stageMessage "" .complete with
    | none => exact hplain
    | some msg =>
        dsimp only
        rw [Pass.sendPush_follow hconfigured]
        cases env.send <;> rfl
  · exact hplain

/-- The pass over an active vault, in a turn in which it is live and the network verified. -/
theorem Pass.escalate_follow (p : Pass) (escalation : Escalation)
    (hexecutor : .runExecutor ∉ (Notify.escalate p.row p.now env escalation).effects →
      env.isLive .executor = true ∧ env.networkVerified .executor = true) (n : Nat) :
    let report := Notify.escalate p.row p.now env escalation
    (p.escalate true (env.moment true) escalation).follow num env read (n + 5) =
      (report.effects.filterMap Effect.change, some report.action) := by
  dsimp only
  by_cases hstage : escalation.stage = 0
  · unfold Pass.escalate Notify.escalate
    dsimp only
    rw [if_pos hstage, if_pos hstage]
    simp only [Turn.follow]
    split <;> rfl
  · have hready : (env.moment true).executorReady = env.executorReady := Bool.and_true _
    by_cases hdriven : escalation.stage = 4 ∧ env.executorReady = true
    · rw [Pass.escalate, if_neg hstage, if_pos (by rwa [hready])]
      exact Pass.remind_follow rfl { p with phase := .executing escalation false } escalation rfl rfl
        hstage n
    · rw [Pass.escalate, if_neg hstage, if_neg (by rwa [hready])]
      have hidle : .runExecutor ∉ (Notify.escalate p.row p.now env escalation).effects := by
        unfold Notify.escalate
        dsimp only
        rw [if_neg hstage, if_neg hdriven]
        split
        · simp
        · cases stageMessage (formatDuration escalation.secondsToExecution)
              (.stage escalation.stage) with
          | none => simp
          | some msg =>
              cases env.isLive .executor <;> cases env.networkVerified .executor <;>
                cases env.send <;> simp
      obtain ⟨hlive, hverified⟩ := hexecutor hidle
      exact Pass.remind_follow rfl p escalation hlive.symm hverified.symm hstage (n + 1)

/-- The pass over a registration comes to what its report says, when the surroundings do not
    change within a turn. -/
theorem processRegistration_follow (num : Arithmetic) (row : Row) (now : Int) (env : Surroundings)
    (read : Option VaultState)
    (hinactive : env.networkVerified .inactive = env.networkVerified .read)
    (hexecutor : .runExecutor ∉ (processRegistration num row now env read).effects →
      env.isLive .executor = env.isLive .read ∧
        env.networkVerified .executor = env.networkVerified .read) :
    let report := processRegistration num row now env read
    (processRegistrationTurn (env.moment (env.networkVerified .entry)) row now).follow num env read 6 =
      (report.effects.filterMap Effect.change, some report.action) := by
  dsimp only
  have hconfigured (b : Bool) : (env.moment b).fcmConfigured = true := rfl
  unfold processRegistrationTurn
  unfold processRegistration at hexecutor ⊢
  cases hentry : env.networkVerified .entry with
  | false => rfl
  | true =>
      simp only [hentry, Bool.true_eq_false, if_false] at hexecutor
      have hbegin (b : Bool) : (env.moment b).networkVerified = b := rfl
      rw [hbegin, if_neg Bool.noConfusion, if_neg Bool.noConfusion]
      cases read with
      | none => rfl
      | some state =>
          rw [Turn.follow_wait _ 5]
          simp only [Pass.next, Pass.resume, Pass.act, hbegin] at hexecutor ⊢
          cases hlive : env.isLive .read with
          | false => rfl
          | true =>
              cases hverified : env.networkVerified .read with
              | false => rfl
              | true =>
                  simp only [hlive, hverified, Bool.true_eq_false, if_false] at hexecutor ⊢
                  cases hconfig : state.config with
                  | none =>
                      dsimp only
                      rw [Turn.follow_wait _ 4]
                      simp only [Pass.next, Pass.resume, Pass.probed, hbegin]
                      cases env.isLive .probe <;> cases env.networkVerified .probe <;>
                        cases env.programOk <;> rfl
                  | some config =>
                      simp only [hconfig] at hexecutor ⊢
                      split
                      · exact Pass.dropInactive_follow rfl { row, now, state := some state }
                          config.executed (hinactive.trans hverified).symm rfl 1
                      next hactive =>
                        rw [if_neg hactive] at hexecutor
                        cases hheartbeat : state.lastHeartbeat with
                        | none => rfl
                        | some lastHeartbeat =>
                            rw [hheartbeat] at hexecutor
                            exact Pass.escalate_follow { row, now, state := some state } _ hexecutor 0

end Follow

end DeadMansVault.Notify
