-- SUMMARY: The register and deregister handlers, the legacy window, and their interleaved runs in one process.
import DeadMansVault.Notify.Authorization

/-!
# The registration routes

A handler runs without interruption until it awaits the ownership of the vault;
then other requests run, and it goes on when the verdict arrives. What a handler
decides is a `Reply`: a response, a store operation to run at once, or a task to
go on with. The rate limiter, the clock, the chain and the database answer
through the events of a run, in any way.
-/

namespace DeadMansVault.Notify

inductive AuthMode
  | legacyOnly
  | dualAccept
  | signedRequired
  deriving DecidableEq, Repr

structure Config where
  mode : AuthMode
  /-- The end of the legacy window, in `dualAccept`. -/
  legacyAcceptUntil : Option Int
  expected : Expected
  registerSecret : String

/-! ## The transition controller -/

/-- The one-way latch of the legacy window. -/
structure Transition where
  expiredLatched : Bool := false
  firstExpiryAt : Option Int := none
  deriving DecidableEq, Repr

structure TransitionStatus where
  configuredMode : AuthMode
  effectiveMode : AuthMode
  legacyAccepting : Bool
  legacyAcceptUntil : Option Int
  legacyWindowExpired : Bool
  secondsUntilLegacyClose : Int

/-- Observe the clock: past the end of the window the latch closes, and stays closed. -/
def Transition.observe (cfg : Config) (now : Int) (t : Transition) : Transition :=
  if cfg.mode = .dualAccept ∧ t.expiredLatched = false ∧
      cfg.legacyAcceptUntil.any (fun deadline => decide (deadline ≤ now)) = true then
    { expiredLatched := true, firstExpiryAt := some now }
  else t

def Transition.get (cfg : Config) (now : Int) (t : Transition) : Transition × TransitionStatus :=
  let t := t.observe cfg now
  let legacyAccepting := match cfg.mode with
    | .legacyOnly => true
    | .dualAccept =>
      cfg.legacyAcceptUntil.any (fun deadline => decide (now < deadline)) && !t.expiredLatched
    | .signedRequired => false
  (t, {
    configuredMode := cfg.mode
    effectiveMode := match cfg.mode with
      | .signedRequired => .signedRequired
      | .legacyOnly => .legacyOnly
      | .dualAccept => bif legacyAccepting then .dualAccept else .signedRequired
    legacyAccepting := legacyAccepting
    legacyAcceptUntil := cfg.legacyAcceptUntil
    legacyWindowExpired := decide (cfg.mode = .dualAccept) && t.expiredLatched
    secondsUntilLegacyClose := match cfg.mode, cfg.legacyAcceptUntil with
      | .dualAccept, some deadline => if t.expiredLatched then 0 else max 0 (deadline - now)
      | _, _ => 0 })

/-! ## Requests and replies -/

inductive Route
  | register
  | deregister
  deriving DecidableEq, Repr

structure Request where
  route : Route
  body : Body
  /-- The `x-dmv-secret` header. -/
  secret : Option String

/-- Any of these properties marks a request as a signed attempt. -/
def v2EnvelopeFields : List String :=
  ["version", "cluster", "programId", "audience", "action", "revision", "timestamp", "nonce",
    "signature"]

def isSignedAttempt (body : Body) : Bool :=
  v2EnvelopeFields.any fun field => (body.get field).isSome

def legacySecretOk (cfg : Config) (req : Request) : Bool :=
  cfg.registerSecret ≠ "" && req.secret = some cfg.registerSecret

/-- What the rate limiter says of a request: its address, and its owner, vault and token. -/
structure Limits where
  ip : Bool
  facets : Bool

def Result.httpStatus : Result → Nat
  | created => 201
  | updated | removed | ok => 200
  | invalidRequest => 400
  | invalidSignature | staleTimestamp | contextMismatch | nonceReused => 401
  | ownershipFailed => 403
  | signedNotEnabled | signedRequired | signedAuthorizationRequired | staleRevision
  | ownerConflict => 409
  | legacyWindowExpired => 410
  | rateLimited => 429
  | dependencyUnavailable => 502
  | databaseError => 503
  | notFound => 500

inductive Response
  /-- `{ ok: false, code }`, with the status of the code. -/
  | failed (code : Result)
  /-- `{ error }` -/
  | error (status : Nat) (message : String)
  /-- `{ error, code }` of the closed legacy window. -/
  | windowExpired
  /-- `{ ok: true, result, revision }`; a legacy client gets `{ ok: true }` alone. -/
  | registered (result : Option (Result × Nat))
  | deregistered (removed : Nat)

/-- A store operation with its arguments, as a handler calls it. The arguments of a legacy
    deregistration come from the body as they are. -/
inductive Call
  | signedRegistration (cmd : SignedRegistration)
  | signedDeregistration (cmd : SignedDeregistration)
  | legacyRegistration (owner vault : Json) (deviceToken : String) (stage1 stage2 stage3 : Rat)
  | legacyDeregistration (vault : Json)
  | legacyDeregistrationByOwner (owner : Json)

def Call.isLegacy : Call → Bool
  | signedRegistration _ | signedDeregistration _ => false
  | legacyRegistration .. | legacyDeregistration _ | legacyDeregistrationByOwner _ => true

/-- Run the operation. A value that cannot be bound in a statement is a database error. -/
def Call.apply (host : Host) (now : Int) (dbFails : Bool) : Call → Store → Store × Outcome
  | signedRegistration cmd => applySignedRegistration dbFails cmd
  | signedDeregistration cmd => applySignedDeregistration dbFails cmd
  | legacyRegistration owner vault deviceToken stage1 stage2 stage3 =>
    match host.bindText owner, host.bindText vault with
    | some owner, some vault =>
      applyLegacyRegistration dbFails ⟨owner, vault, deviceToken, stage1, stage2, stage3, now⟩
    | _, _ => fun s => (s, { code := .databaseError })
  | legacyDeregistration vault =>
    match host.bindText vault with
    | some vault => deleteLegacyRegistration dbFails vault
    | none => fun s => (s, { code := .databaseError })
  | legacyDeregistrationByOwner owner =>
    match host.bindText owner with
    | some owner => deleteLegacyRegistrationsByOwner dbFails owner
    | none => fun s => (s, { code := .databaseError })

/-- The response to what the operation reports. -/
def Call.respond (mode : AuthMode) (outcome : Outcome) : Call → Response
  | signedRegistration cmd =>
    if outcome.code = .created ∨ outcome.code = .updated then
      .registered (some (outcome.code, cmd.revision))
    else .failed outcome.code
  | signedDeregistration _ =>
    if outcome.code = .removed then .deregistered outcome.removed else .failed outcome.code
  | legacyRegistration .. =>
    if outcome.code = .signedAuthorizationRequired ∨ outcome.code = .databaseError then
      .failed outcome.code
    else .registered none
  | legacyDeregistration _ =>
    -- In `legacyOnly` a database error is answered like a removal of nothing.
    if outcome.code = .signedAuthorizationRequired ∨
      outcome.code = .databaseError ∧ mode ≠ .legacyOnly then .failed outcome.code
    else .deregistered outcome.removed
  | legacyDeregistrationByOwner _ =>
    if outcome.code = .databaseError then .failed outcome.code
    else .deregistered outcome.removed

inductive Reply
  | respond (response : Response)
  | run (call : Call)
  /-- Await the ownership of the vault, and run the call when it is confirmed. -/
  | await (call : Call)

/-! ## The handlers -/

/-- The value counts as true in a condition. -/
def Json.truthy : Json → Bool
  | null => false
  | bool b => b
  | number n => n ≠ 0
  | string s => s ≠ ""
  | array _ | object _ => true

/-- The legacy path of `register` behind the window check. -/
def legacyRegister (host : Host) (cfg : Config) (req : Request) : Reply :=
  if legacySecretOk cfg req = false then .respond (.error 401 "unauthorized")
  else match req.body.get "owner", req.body.get "vault" with
  | some owner, some vault =>
    if host.isPubkey owner && host.isPubkey vault then
      match req.body.get "deviceToken" with
      | some (.string deviceToken) =>
        if utf16Length deviceToken < 10 then .respond (.error 400 "invalid deviceToken")
        else match host.number (req.body.get "stage1"), host.number (req.body.get "stage2"),
            host.number (req.body.get "stage3") with
        | some stage1, some stage2, some stage3 =>
          if 0 < stage1 ∧ 0 < stage2 ∧ 0 < stage3 then
            .await (.legacyRegistration owner vault deviceToken stage1 stage2 stage3)
          else .respond (.error 400 "invalid stage durations")
        | _, _, _ => .respond (.error 400 "invalid stage durations")
      | _ => .respond (.error 400 "invalid deviceToken")
    else .respond (.error 400 "invalid owner/vault pubkey")
  | _, _ => .respond (.error 400 "invalid owner/vault pubkey")

/-- The legacy path of `deregister` behind the window check. -/
def legacyDeregister (host : Host) (cfg : Config) (req : Request) : Reply :=
  let named (name : String) : Option Json :=
    (req.body.get name).filter fun value => value.truthy && host.isPubkey value
  if legacySecretOk cfg req = false then .respond (.error 401 "unauthorized")
  else if cfg.mode = .legacyOnly then
    match named "vault", named "owner" with
    | some vault, _ => .run (.legacyDeregistration vault)
    | none, some owner => .run (.legacyDeregistrationByOwner owner)
    | none, none => .respond (.error 400 "vault or owner required")
  else
    match named "vault" with
    | some vault => .run (.legacyDeregistration vault)
    | none => .respond (.error 400 "vault required")

/-- A handler up to its first await. -/
def handle (host : Host) (cfg : Config) (limits : Limits) (now : Int) (store : Store)
    (req : Request) (t : Transition) : Transition × Reply :=
  if limits.ip = false then (t, .respond (.failed .rateLimited))
  else if limits.facets = false then (t, .respond (.failed .rateLimited))
  else if isSignedAttempt req.body then
    (t, if cfg.mode = .legacyOnly then .respond (.failed .signedNotEnabled)
      else match req.route with
      | .register =>
        match authorizeRegisterV2 host cfg.expected now req.body with
        | .ok cmd => .await (.signedRegistration cmd)
        | .error code => .respond (.failed code)
      | .deregister =>
        match authorizeDeregisterV2 host cfg.expected now store req.body with
        | .ok (cmd, true) => .await (.signedDeregistration cmd)
        | .ok (cmd, false) => .run (.signedDeregistration cmd)
        | .error code => .respond (.failed code))
  else if cfg.mode = .signedRequired then (t, .respond (.failed .signedRequired))
  else
    let (t, status) := t.get cfg now
    -- Before the secret, so that neither a valid nor an invalid one tells anything.
    if status.legacyAccepting = false then (t, .respond .windowExpired)
    else match req.route with
    | .register => (t, legacyRegister host cfg req)
    | .deregister => (t, legacyDeregister host cfg req)

/-- A handler after its await. -/
def proceed (verdict : OwnershipVerdict) (call : Call) : Reply :=
  if call.isLegacy then
    match verdict with
    | .owned => .run call
    | .refused | .unavailable => .respond (.error 403 "vault verification failed")
    | .threw => .respond (.error 502 "vault verification unavailable")
  else
    match classifyOwnership verdict with
    | none => .run call
    | some code => .respond (.failed code)

/-! ## Interleaved runs -/

/-- A handler that awaits the ownership of a vault. -/
structure Suspended where
  id : Nat
  request : Request
  call : Call

structure Server where
  store : Store
  transition : Transition
  suspended : List Suspended

inductive Event
  /-- A request arrives, and its handler runs up to its await. -/
  | arrive (id : Nat) (request : Request) (limits : Limits) (now : Int) (dbFails : Bool)
  /-- A verdict arrives. -/
  | resume (id : Nat) (verdict : OwnershipVerdict) (now : Int) (dbFails : Bool)
  /-- Some other endpoint observes the legacy window. -/
  | observe (now : Int)
  | deleteRegistration (vault : String)
  | updateNotifyState (vault : String) (lastStage : Nat) (lastNotifiedAt : Int)
  | pruneNonces (olderThan : Int)

/-- The request that an event is about. -/
def Event.id : Event → Option Nat
  | arrive id .. | resume id .. => some id
  | _ => none

/-- What a step does for a request: its handler runs, and may run a store operation. -/
structure Activity where
  request : Request
  call : Option Call
  response : Option Response

/-- Act on the reply of a handler. -/
def Server.reply (host : Host) (cfg : Config) (id : Nat) (request : Request) (now : Int)
    (dbFails : Bool) (s : Server) : Reply → Server × Option Activity
  | .respond response => (s, some ⟨request, none, some response⟩)
  | .run call =>
    let (store, outcome) := call.apply host now dbFails s.store
    ({ s with store := store }, some ⟨request, some call, some (call.respond cfg.mode outcome)⟩)
  | .await call => ({ s with suspended := s.suspended ++ [⟨id, request, call⟩] }, some ⟨request, none, none⟩)

def Server.step (host : Host) (cfg : Config) (s : Server) : Event → Server × Option Activity
  | .arrive id request limits now dbFails =>
    let (transition, reply) := handle host cfg limits now s.store request s.transition
    { s with transition := transition }.reply host cfg id request now dbFails reply
  | .resume id verdict now dbFails =>
    match s.suspended.find? (·.id = id) with
    | none => (s, none)
    | some waiting =>
      { s with suspended := s.suspended.filter fun other => !decide (other.id = id) }.reply host cfg id
        waiting.request now dbFails (proceed verdict waiting.call)
  | .observe now => ({ s with transition := (s.transition.get cfg now).1 }, none)
  | .deleteRegistration vault => ({ s with store := s.store.deleteRegistration vault }, none)
  | .updateNotifyState vault lastStage lastNotifiedAt =>
    ({ s with store := s.store.updateNotifyState vault lastStage lastNotifiedAt }, none)
  | .pruneNonces olderThan => ({ s with store := s.store.pruneNonces olderThan }, none)

def Server.run (host : Host) (cfg : Config) (s : Server) (es : List Event) : Server :=
  es.foldl (fun s e => (s.step host cfg e).1) s

@[simp] theorem Server.run_nil (host : Host) (cfg : Config) (s : Server) : s.run host cfg [] = s := rfl

@[simp] theorem Server.run_cons (host : Host) (cfg : Config) (s : Server) (e : Event)
    (es : List Event) : s.run host cfg (e :: es) = (s.step host cfg e).1.run host cfg es := rfl

end DeadMansVault.Notify
