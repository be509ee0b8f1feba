-- SUMMARY: The push transport: its readiness, and the probes and sends in flight that decide it.
import DeadMansVault.Library.Machine
import Mathlib.Data.List.Basic

/-!
# Push transport

`probeFcm` and `sendPush` share one state and suspend at their awaits. A happening
is the start of a call, or the end of one await of a call in flight; an error is
known by the code that `reasonCode` gives it.
-/

namespace DeadMansVault.Notify

/-! ## State -/

structure FcmState where
  ready : Bool := false
  reason : String := "startup"
  /-- The send endpoint has lately rejected a send. -/
  providerRejected : Bool := false
  deriving DecidableEq, Repr

structure Notification where
  deviceToken : String
  title : String
  body : String
  channel : String := ""
  deriving DecidableEq, Repr

/-- The message posted, on its channel. -/
def Notification.message (push : Notification) : Notification :=
  { push with channel := if push.channel = "" then "escalation" else push.channel }

/-- A send that has a client. -/
structure Send where
  push : Notification
  projectId : String
  /-- `deps.resetFcm` stands in for `resetFcm`. -/
  resetReplaced : Bool := false
  deriving DecidableEq, Repr

/-- Where a call is suspended. -/
inductive FcmCall
  | probing
  | acquiring (send : Send)
  | fetching (send : Send)
  | reading (send : Send) (status : Nat)
  deriving DecidableEq, Repr

structure Fcm where
  fcmState : FcmState := {}
  /-- There is a memoized client. -/
  jwtClient : Bool := false
  projectId : String
  /-- `config.fcmProjectId` -/
  configured : String
  /-- What the observer has been told. -/
  notified : List (Bool × String) := []
  calls : List (Option FcmCall) := []
  deriving DecidableEq, Repr

/-- The module as it is loaded. -/
def Fcm.start (configured : String) : Fcm := { projectId := configured, configured }

/-! ## Inputs -/

/-- What `loadServiceAccount` and the client made of it come to. -/
inductive ServiceAccountLoad
  | throws (code : String)
  | missing
  | loaded (projectId : String)
  deriving DecidableEq, Repr

/-- How a send comes by its client. -/
inductive ClientSource
  | getClient (load : ServiceAccountLoad)
  /-- `deps.getClient` -/
  | replaced (client : Except String Bool)

structure SendDeps where
  client : ClientSource
  projectId : Option String := none
  resetReplaced : Bool := false

/-- How a probe comes by its access token. -/
inductive TokenSource
  | defaultGetAccessToken (load : ServiceAccountLoad)
  | replaced
  deriving DecidableEq, Repr

structure ResponseBody where
  name : Option String := none
  detailCode : Option String := none
  errorStatus : Option String := none
  deriving DecidableEq, Repr

/-- The code of an error body: its first detail's, else its status. -/
def ResponseBody.code (body : ResponseBody) : String :=
  match body.detailCode.filter (· ≠ "") with
  | some code => code
  | none => body.errorStatus.getD ""

inductive BodyRead
  /-- `none` is the body `null`. -/
  | json (body : Option ResponseBody)
  | fails (aborted : Bool) (code : String)
  deriving DecidableEq, Repr

/-- The reading was cut off by the deadline. -/
def BodyRead.cutOff : BodyRead → Bool
  | .fails aborted _ => aborted
  | .json _ => false

/-- How an await ends. -/
inductive Awaited
  | rejects (code : String)
  /-- An access token, or an empty answer; and what `canSend` says at that moment. -/
  | token (given canSend : Bool)
  | response (status : Nat)
  | body (read : BodyRead)
  deriving DecidableEq, Repr

inductive FcmHappening
  | probe (source : TokenSource)
  | send (push : Notification) (deps : SendDeps)
  | resume (call : Nat) (awaited : Awaited)

/-! ## Outputs -/

structure PushResult where
  ok : Bool
  status : Option Nat := none
  error : Option String := none
  suppressed : Bool := false
  unregistered : Bool := false
  name : Option String := none
  deriving DecidableEq, Repr

inductive FcmOutput
  | posted (url : String) (message : Notification)
  | probed (call : Nat) (status : FcmState)
  | sent (call : Nat) (result : PushResult)
  /-- The call ends in an error of its own. -/
  | threw (call : Nat)
  deriving DecidableEq, Repr

/-! ## Calls -/

namespace Fcm

def setFcm (m : Fcm) (ready : Bool) (reason : String) (providerRejected : Option Bool) : Fcm :=
  { m with
    fcmState := ⟨ready, reason, providerRejected.getD m.fcmState.providerRejected⟩
    notified := m.notified ++ [(ready, reason)] }

def resetFcm (m : Fcm) : Fcm := { m with jwtClient := false, projectId := m.configured }

def getClient (m : Fcm) (load : ServiceAccountLoad) : Fcm × Except String Bool :=
  if m.jwtClient then (m, .ok true)
  else
    match load with
    | .throws code => (m, .error code)
    | .missing => (m, .ok false)
    | .loaded projectId =>
      ({ m with
          jwtClient := true
          projectId := if m.projectId = "" then projectId else m.projectId }, .ok true)

def clientOf (m : Fcm) : ClientSource → Fcm × Except String Bool
  | .getClient load => m.getClient load
  | .replaced client => (m, client)

def enter (m : Fcm) : Fcm := { m with calls := m.calls ++ [none] }

def suspend (m : Fcm) (i : Nat) (call : Option FcmCall) : Fcm :=
  { m with calls := m.calls.set i call }

def suspended (m : Fcm) (i : Nat) : Option FcmCall := (m.calls[i]?).join

/-! ### `probeFcm` -/

def endProbe (m : Fcm) (i : Nat) : Fcm × List FcmOutput := (m, [.probed i m.fcmState])

def failProbe (m : Fcm) (i : Nat) (reason : String) : Fcm × List FcmOutput :=
  (m.resetFcm.setFcm false reason none).endProbe i

def probeFcm (m : Fcm) (i : Nat) : TokenSource → Fcm × List FcmOutput
  | .replaced => (m.suspend i (some .probing), [])
  | .defaultGetAccessToken load =>
    match m.getClient load with
    | (m, .error code) => m.failProbe i ("fcm_" ++ code)
    | (m, .ok client) =>
      if client = false ∨ m.projectId = "" then
        -- The error `fcm_not_configured` is none that `reasonCode` tells apart.
        m.failProbe i "fcm_rpc_unreachable"
      else (m.suspend i (some .probing), [])

def probed (m : Fcm) (i : Nat) : Awaited → Fcm × List FcmOutput
  | .rejects code => m.failProbe i ("fcm_" ++ code)
  | .token false _ => m.failProbe i "fcm_no_access_token"
  | .token true _ =>
    if m.fcmState.providerRejected then
      (m.setFcm false "fcm_awaiting_send_recovery" none).endProbe i
    else (m.setFcm true "ok" none).endProbe i
  | _ => (m.suspend i (some .probing), [])

/-! ### `sendPush` -/

def isTransportFailure (status : Nat) : Bool :=
  status = 401 || status = 403 || status = 429 || decide (500 ≤ status)

def failSend (m : Fcm) (i : Nat) (reason error : String) : Fcm × List FcmOutput :=
  (m.setFcm false reason (some true), [.sent i { ok := false, error := some error }])

def resetFcmFn (m : Fcm) (replaced : Bool) : Fcm := if replaced then m else m.resetFcm

def sendPush (m : Fcm) (i : Nat) (push : Notification) (deps : SendDeps) : Fcm × List FcmOutput :=
  -- The project is read before the client is made, which may set it.
  let projectId := deps.projectId.getD m.projectId
  match m.clientOf deps.client with
  | (m, .error code) =>
    (m.resetFcmFn deps.resetReplaced).failSend i ("fcm_" ++ code) "fcm_auth_failed"
  | (m, .ok client) =>
    if client = false then m.failSend i "fcm_not_configured" "fcm_not_configured"
    else if projectId = "" then m.failSend i "fcm_not_configured" "fcm_not_configured"
    else (m.suspend i (some (.acquiring ⟨push, projectId, deps.resetReplaced⟩)), [])

def sendUrl (projectId : String) : String :=
  "https://fcm.googleapis.com/v1/projects/" ++ projectId ++ "/messages:send"

def acquired (m : Fcm) (i : Nat) (send : Send) : Awaited → Fcm × List FcmOutput
  | .rejects code =>
    (m.resetFcmFn send.resetReplaced).failSend i ("fcm_" ++ code) "fcm_auth_failed"
  | .token given canSend =>
    if given = false then
      (m.resetFcmFn send.resetReplaced).failSend i "fcm_no_access_token" "fcm_no_access_token"
    else if canSend = false then
      (m, [.sent i { ok := false, suppressed := true, error := some "send_suppressed" }])
    else
      (m.suspend i (some (.fetching send)), [.posted (sendUrl send.projectId) (send.push.message)])
  | _ => (m.suspend i (some (.acquiring send)), [])

def fetched (m : Fcm) (i : Nat) (send : Send) : Awaited → Fcm × List FcmOutput
  | .rejects code => m.failSend i ("fcm_" ++ code) "fcm_send_failed"
  | .response status => (m.suspend i (some (.reading send status)), [])
  | _ => (m.suspend i (some (.fetching send)), [])

/-- `res.ok` -/
def isOk (status : Nat) : Bool := decide (200 ≤ status) && decide (status < 300)

/-- A body was read, or was there and malformed. -/
def answered (m : Fcm) (i : Nat) (send : Send) (status : Nat) (body : Option ResponseBody) :
    Fcm × List FcmOutput :=
  if isOk status then
    let m := m.setFcm true "ok" (some false)
    match body with
    | none => (m, [.threw i])
    | some body => (m, [.sent i { ok := true, status := some status, name := body.name }])
  else
    let code := (body.getD {}).code
    let result : PushResult :=
      { ok := false
        status := some status
        error := some (if code = "" then "http_" ++ toString status else code)
        unregistered := decide (code = "UNREGISTERED") || decide (status = 404) }
    if isTransportFailure status then
      let m := m.setFcm false ("fcm_http_" ++ toString status) (some true)
      (if status = 401 ∨ status = 403 then m.resetFcmFn send.resetReplaced else m, [.sent i result])
    else (m, [.sent i result])

def read (m : Fcm) (i : Nat) (send : Send) (status : Nat) : Awaited → Fcm × List FcmOutput
  | .body (.fails true code) => m.failSend i ("fcm_" ++ code) "fcm_send_failed"
  | .body (.fails false _) => m.answered i send status (some {})
  | .body (.json body) => m.answered i send status body
  | _ => (m.suspend i (some (.reading send status)), [])

/-! ### Steps -/

/-- An await that is not the call's own changes nothing. -/
def resume (m : Fcm) (i : Nat) (awaited : Awaited) : Fcm × List FcmOutput :=
  match m.suspended i with
  | none => (m, [])
  | some .probing => (m.suspend i none).probed i awaited
  | some (.acquiring send) => (m.suspend i none).acquired i send awaited
  | some (.fetching send) => (m.suspend i none).fetched i send awaited
  | some (.reading send status) => (m.suspend i none).read i send status awaited

def step : Machine Fcm FcmHappening FcmOutput
  | m, .probe source => m.enter.probeFcm m.calls.length source
  | m, .send push deps => m.enter.sendPush m.calls.length push deps
  | m, .resume i awaited => m.resume i awaited

/-! ## How a send ends -/

inductive SendEnd
  | success
  | transportFailure
  /-- A status that is neither a success nor one of the transport's. -/
  | rejected
  | suppressed
  deriving DecidableEq, Repr

/-- What a send that this happening ends comes to. -/
def sendEnd (m : Fcm) : FcmHappening → Option SendEnd
  | .probe _ => none
  | .send _ deps =>
    match (m.clientOf deps.client).2 with
    | .ok true => if deps.projectId.getD m.projectId = "" then some .transportFailure else none
    | _ => some .transportFailure
  | .resume i awaited =>
    match m.suspended i, awaited with
    | some (.acquiring _), .rejects _ => some .transportFailure
    | some (.acquiring _), .token false _ => some .transportFailure
    | some (.acquiring _), .token true false => some .suppressed
    | some (.fetching _), .rejects _ => some .transportFailure
    | some (.reading _ status), .body read =>
      if read.cutOff then some .transportFailure
      else if isOk status then some .success
      else if isTransportFailure status then some .transportFailure
      else some .rejected
    | _, _ => none

/-! ## What a step may do to the flags -/

/-- The flags and the observer's calls, before and after a step in which `ended` ends. -/
inductive Turn (m : Fcm) (ended : Option SendEnd) (m' : Fcm) : Prop
  | quiet (hstate : m'.fcmState = m.fcmState) (hnotified : m'.notified = m.notified)
      (hend : ended ≠ some .transportFailure)
  | told {ready : Bool} {reason : String} {rejected : Bool}
      (hstate : m'.fcmState = ⟨ready, reason, rejected⟩)
      (hnotified : m'.notified = m.notified ++ [(ready, reason)])
      (hready : ready = true → rejected = false)
      (hrecovers : rejected = false →
        m.fcmState.providerRejected = false ∨ ended = some .success)
      (hfails : ended = some .transportFailure → rejected = true)
      (hsilent : ended ≠ some .rejected ∧ ended ≠ some .suppressed)

variable {m m₀ m' : Fcm} {ended : Option SendEnd} {i : Nat}

/-- A step may start from any state with the flags of the one before it. -/
theorem Turn.of_same (h : Turn m₀ ended m') (hstate : m₀.fcmState = m.fcmState)
    (hnotified : m₀.notified = m.notified) : Turn m ended m' := by
  cases h with
  | quiet hs hn hend => exact .quiet (hs.trans hstate) (hn.trans hnotified) hend
  | told hs hn hready hrecovers hfails hsilent =>
      exact .told hs (hnotified ▸ hn) hready (hstate ▸ hrecovers) hfails hsilent

theorem Turn.resetFcmFn (h : Turn m ended m') (replaced : Bool) :
    Turn m ended (m'.resetFcmFn replaced) := by
  unfold Fcm.resetFcmFn
  split
  · exact h
  · cases h with
    | quiet hs hn hend => exact .quiet hs hn hend
    | told hs hn hready hrecovers hfails hsilent =>
        exact .told hs hn hready hrecovers hfails hsilent

theorem failProbe_turn (reason : String) : Turn m none (m.failProbe i reason).1 :=
  .told rfl rfl nofun Or.inl nofun
    ⟨nofun, nofun⟩

theorem failSend_turn (reason error : String) :
    Turn m (some .transportFailure) (m.failSend i reason error).1 :=
  .told rfl rfl nofun nofun (fun _ => rfl)
    ⟨by decide, by decide⟩

theorem suspend_turn (call : Option FcmCall) : Turn m none (m.suspend i call) :=
  .quiet rfl rfl nofun

@[simp] theorem resetFcmFn_fcmState (replaced : Bool) :
    (m.resetFcmFn replaced).fcmState = m.fcmState := by
  unfold resetFcmFn
  split <;> rfl

@[simp] theorem resetFcmFn_notified (replaced : Bool) :
    (m.resetFcmFn replaced).notified = m.notified := by
  unfold resetFcmFn
  split <;> rfl

@[simp] theorem getClient_fcmState (load : ServiceAccountLoad) :
    (m.getClient load).1.fcmState = m.fcmState := by
  unfold getClient
  repeat' (split <;> try rfl)

@[simp] theorem getClient_notified (load : ServiceAccountLoad) :
    (m.getClient load).1.notified = m.notified := by
  unfold getClient
  repeat' (split <;> try rfl)

@[simp] theorem clientOf_fcmState (source : ClientSource) :
    (m.clientOf source).1.fcmState = m.fcmState := by
  cases source with
  | getClient load => exact getClient_fcmState load
  | replaced client => rfl

@[simp] theorem clientOf_notified (source : ClientSource) :
    (m.clientOf source).1.notified = m.notified := by
  cases source with
  | getClient load => exact getClient_notified load
  | replaced client => rfl

theorem probeFcm_turn (source : TokenSource) : Turn m none (m.probeFcm i source).1 := by
  cases source with
  | replaced => exact suspend_turn _
  | defaultGetAccessToken load =>
      have hstate := getClient_fcmState (m := m) load
      have hnotified := getClient_notified (m := m) load
      simp only [probeFcm]
      rcases hclient : m.getClient load with ⟨m₁, client⟩
      rw [hclient] at hstate hnotified
      rcases client with code | client
      · exact (failProbe_turn _).of_same hstate hnotified
      · dsimp only
        split
        · exact (failProbe_turn _).of_same hstate hnotified
        · exact (suspend_turn _).of_same hstate hnotified

theorem probed_turn (awaited : Awaited) : Turn m none (m.probed i awaited).1 := by
  cases awaited with
  | rejects code => exact failProbe_turn _
  | token given canSend =>
      cases given with
      | false => exact failProbe_turn _
      | true =>
          simp only [probed]
          split
          · exact .told rfl rfl nofun Or.inl nofun
              ⟨nofun, nofun⟩
          next hrejected =>
            -- A token brings readiness back only where no send has been rejected.
            have hclear := eq_false_of_ne_true hrejected
            exact .told rfl rfl (fun _ => hclear) Or.inl nofun
              ⟨nofun, nofun⟩
  | response status => exact suspend_turn _
  | body read => exact suspend_turn _

/-- What comes back to a call. -/
theorem sendEnd_resume (awaited : Awaited) :
    m.sendEnd (.resume i awaited) =
      match m.suspended i, awaited with
      | some (.acquiring _), .rejects _ => some .transportFailure
      | some (.acquiring _), .token false _ => some .transportFailure
      | some (.acquiring _), .token true false => some .suppressed
      | some (.fetching _), .rejects _ => some .transportFailure
      | some (.reading _ status), .body read =>
        if read.cutOff then some .transportFailure
        else if isOk status then some .success
        else if isTransportFailure status then some .transportFailure
        else some .rejected
      | _, _ => none :=
  rfl

theorem sendEnd_enter (push : Notification) (deps : SendDeps) :
    m.enter.sendEnd (.send push deps) = m.sendEnd (.send push deps) := by
  have hclient : (m.enter.clientOf deps.client).2 = (m.clientOf deps.client).2 := by
    cases deps.client with
    | getClient load =>
        cases hcached : m.jwtClient with
        | true => simp [clientOf, getClient, enter, hcached]
        | false => cases load <;> simp [clientOf, getClient, enter, hcached]
    | replaced client => rfl
  simp only [sendEnd, hclient]
  rfl

theorem sendPush_turn (push : Notification) (deps : SendDeps) :
    Turn m (m.sendEnd (.send push deps)) (m.sendPush i push deps).1 := by
  have hstate := clientOf_fcmState (m := m) deps.client
  have hnotified := clientOf_notified (m := m) deps.client
  simp only [sendEnd, sendPush]
  rcases hclient : m.clientOf deps.client with ⟨m₁, client⟩
  rw [hclient] at hstate hnotified
  rcases client with code | client
  · refine (failSend_turn _ _).of_same ?_ ?_
    · rw [resetFcmFn_fcmState, hstate]
    · rw [resetFcmFn_notified, hnotified]
  · cases client with
    | false => exact (failSend_turn _ _).of_same hstate hnotified
    | true =>
        simp only [Bool.true_eq_false, if_false]
        split
        · exact (failSend_turn _ _).of_same hstate hnotified
        · exact (suspend_turn _).of_same hstate hnotified

/-- The ends of a send are told apart by where it is suspended; here it has just gone on. -/
theorem acquired_turn (send : Send) (awaited : Awaited) (hat : m.suspended i = some (.acquiring send)) :
    Turn m (m.sendEnd (.resume i awaited)) ((m.suspend i none).acquired i send awaited).1 := by
  have hgone : Turn (m.suspend i none) (m.sendEnd (.resume i awaited))
      ((m.suspend i none).acquired i send awaited).1 := by
    rw [sendEnd_resume, hat]
    cases awaited with
    | rejects code => exact (failSend_turn _ _).of_same (by simp) (by simp)
    | token given canSend =>
        cases given with
        | false => exact (failSend_turn _ _).of_same (by simp) (by simp)
        | true =>
            cases canSend with
            | false => exact .quiet rfl rfl (by simp)
            | true => exact suspend_turn _
    | response status => exact suspend_turn _
    | body read => exact suspend_turn _
  exact hgone.of_same rfl rfl

theorem fetched_turn (send : Send) (awaited : Awaited) (hat : m.suspended i = some (.fetching send)) :
    Turn m (m.sendEnd (.resume i awaited)) ((m.suspend i none).fetched i send awaited).1 := by
  have hgone : Turn (m.suspend i none) (m.sendEnd (.resume i awaited))
      ((m.suspend i none).fetched i send awaited).1 := by
    rw [sendEnd_resume, hat]
    cases awaited with
    | rejects code => exact failSend_turn _ _
    | token given canSend => exact suspend_turn _
    | response status => exact suspend_turn _
    | body read => exact suspend_turn _
  exact hgone.of_same rfl rfl

theorem answered_turn (send : Send) (status : Nat) (body : Option ResponseBody) :
    Turn m (if isOk status then some .success
        else if isTransportFailure status then some .transportFailure else some .rejected)
      (m.answered i send status body).1 := by
  unfold answered
  split
  · cases body with
    | none => exact .told rfl rfl (fun _ => rfl) (fun _ => Or.inr rfl) nofun ⟨by decide, by decide⟩
    | some body =>
        exact .told rfl rfl (fun _ => rfl) (fun _ => Or.inr rfl) nofun ⟨by decide, by decide⟩
  · dsimp only
    split
    · have hfail : Turn m (some .transportFailure)
          (m.setFcm false ("fcm_http_" ++ toString status) (some true)) :=
        (failSend_turn (i := i) _ "")
      split
      · exact hfail.resetFcmFn _
      · exact hfail
    · exact .quiet rfl rfl (by decide)

theorem read_turn (send : Send) (status : Nat) (awaited : Awaited)
    (hat : m.suspended i = some (.reading send status)) :
    Turn m (m.sendEnd (.resume i awaited)) ((m.suspend i none).read i send status awaited).1 := by
  have hgone : Turn (m.suspend i none) (m.sendEnd (.resume i awaited))
      ((m.suspend i none).read i send status awaited).1 := by
    rw [sendEnd_resume, hat]
    cases awaited with
    | rejects code => exact suspend_turn _
    | token given canSend => exact suspend_turn _
    | response status => exact suspend_turn _
    | body read =>
        cases read with
        | json body => exact answered_turn _ _ _
        | fails aborted code =>
            cases aborted with
            | true => exact failSend_turn _ _
            | false => exact answered_turn _ _ _
  exact hgone.of_same rfl rfl

theorem resume_turn (awaited : Awaited) :
    Turn m (m.sendEnd (.resume i awaited)) (m.resume i awaited).1 := by
  unfold resume
  split
  next hat =>
    rw [sendEnd_resume, hat]
    exact .quiet rfl rfl nofun
  next hat =>
    rw [sendEnd_resume, hat]
    exact (probed_turn (m := m.suspend i none) awaited).of_same rfl rfl
  next send hat => exact acquired_turn send awaited hat
  next send hat => exact fetched_turn send awaited hat
  next send status hat => exact read_turn send status awaited hat

theorem step_turn (m : Fcm) (h : FcmHappening) : Turn m (m.sendEnd h) (m.step h).1 := by
  cases h with
  | probe source => exact (probeFcm_turn (m := m.enter) source).of_same rfl rfl
  | send push deps =>
      rw [← sendEnd_enter]
      exact (sendPush_turn (m := m.enter) push deps).of_same rfl rfl
  | resume i awaited => exact resume_turn awaited

end Fcm

end DeadMansVault.Notify
