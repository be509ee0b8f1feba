-- SUMMARY: The keeper's readiness: its gate of three checks, and the cache that spares it some of them.
import DeadMansVault.Crank.Client
import DeadMansVault.Library.Machine

/-!
# Readiness of the keeper

The gate verifies the genesis hash, the program and the balance, one RPC after the
other. It runs at every tick and, where the cache is too old, before a submission;
any number of gates may be suspended at once. Each reading of the clock is an input.
-/

namespace DeadMansVault.Crank

/-! ## Checks -/

def reasonCode (e : JsError) : String :=
  let m := e.message.toLower.toList
  let has (p : String) : Bool := decide (p.toList <:+: m)
  if has "timeout" || has "abort" then "rpc_timeout"
  else if has "429" || has "too many requests" || has "rate limit" then "rpc_rate_limited"
  else if has "econnrefused" || has "connection refused" then "rpc_connection_refused"
  else if has "enotfound" || has "eai_again" || has "getaddrinfo" || has "dns" then
    "rpc_dns_failure"
  else if has "fetch failed" || has "network" || has "socket" then "rpc_network_error"
  else "rpc_unreachable"

inductive Net
  | verified
  | mismatch
  | unknown (reason : String)
  deriving DecidableEq, Repr

/-- `canonical` is that the answer is Base58 of 32 bytes, written the canonical way. -/
def classifyGenesis (canonical : String → Bool) (expected : String) :
    Except JsError String → Net
  | .error e => .unknown (reasonCode e)
  | .ok received =>
    if canonical received = false then .unknown "malformed_genesis_response"
    else if received = expected then .verified
    else .mismatch

inductive ProgramAnswer
  | missing
  | malformed
  | account (executable : Bool)
  deriving DecidableEq, Repr

inductive ProgramCheck
  | ok
  | failed (reason : String)
  | unknown (reason : String)
  deriving DecidableEq, Repr

def checkProgramAccount : Except JsError ProgramAnswer → ProgramCheck
  | .error e => .unknown (reasonCode e)
  | .ok .missing => .failed "program_not_found"
  | .ok .malformed => .unknown "malformed_program_response"
  | .ok (.account executable) => if executable then .ok else .failed "program_not_executable"

inductive BalanceCheck
  | ok (low : Bool)
  | failed (reason : String)
  deriving DecidableEq, Repr

/-- `none` is a balance that is no finite number. -/
def evaluateBalance (minLamports warnLamports : Int) : Option Int → BalanceCheck
  | none => .failed "balance_invalid"
  | some lamports =>
    if lamports < 0 then .failed "balance_invalid"
    else if lamports < minLamports then .failed "balance_below_minimum"
    else .ok (decide (lamports < warnLamports))

/-! ## The gate -/

structure KeeperConfig where
  canonical : String → Bool
  expectedGenesis : String
  minLamports : Int
  warnLamports : Int

inductive GateResult
  | fatal (reason : String)
  | degraded (reason : String)
  | ok (low : Bool) (genesisVerifiedAt : Int)
  deriving DecidableEq, Repr

/-- Where `keeperReadiness` is suspended; last, its caller is. -/
inductive GatePhase
  | genesis
  | program (genesisVerifiedAt : Int)
  | balance (genesisVerifiedAt : Int)
  | returned (result : GateResult)
  deriving DecidableEq, Repr

/-- How an await ends, and what the clock reads then where the code reads it. -/
inductive GateAwaited
  | genesis (answer : Except JsError String) (now : Int)
  | program (answer : Except JsError ProgramAnswer)
  | balance (answer : Except JsError (Option Int))
  | returned (now : Int)

/-- `keeperReadiness`, from one await to the next -/
def keeperReadiness (cfg : KeeperConfig) : GatePhase → GateAwaited → GatePhase
  | .genesis, .genesis answer now =>
    match classifyGenesis cfg.canonical cfg.expectedGenesis answer with
    | .mismatch => .returned (.fatal "genesis_mismatch")
    | .unknown reason => .returned (.degraded ("network_" ++ reason))
    | .verified => .program now
  | .program genesisVerifiedAt, .program answer =>
    match checkProgramAccount answer with
    | .unknown reason => .returned (.degraded ("program_" ++ reason))
    | .failed reason => .returned (.fatal reason)
    | .ok => .balance genesisVerifiedAt
  | .balance genesisVerifiedAt, .balance answer =>
    match answer with
    | .error e => .returned (.degraded ("balance_" ++ reasonCode e))
    | .ok lamports =>
      match evaluateBalance cfg.minLamports cfg.warnLamports lamports with
      | .failed reason => .returned (.degraded reason)
      | .ok low => .returned (.ok low genesisVerifiedAt)
  | phase, _ => phase

/-! ## The cache -/

/-- Who awaits a gate. -/
inductive GateCaller
  | runOnce
  | revalidate
  deriving DecidableEq, Repr

structure Keeper where
  live : Bool := false
  /-- `none` is before all time. -/
  lastOkAt : Option Int := none
  gates : List (Option (GateCaller × GatePhase)) := []
  /-- The process has left. -/
  exited : Bool := false
  deriving DecidableEq, Repr

inductive KeeperHappening
  /-- A tick begins. -/
  | runOnce
  | revalidate (now : Int)
  | resume (gate : Nat) (awaited : GateAwaited)

inductive KeeperOutput
  /-- `revalidate` answers `true` from its cache. -/
  | reused (now : Int)
  /-- `revalidate` answers what its check has come to. -/
  | rechecked (ok : Bool)
  /-- The cache is stamped, for a genesis hash that was verified at this reading. -/
  | stamped (genesisVerifiedAt : Int)
  | degraded (reason : String)
  | exit (reason : String)
  deriving DecidableEq, Repr

def revalidateTtlMs : Int := 1500

namespace Keeper

def gate (s : Keeper) (caller : GateCaller) : Keeper :=
  { s with gates := s.gates ++ [some (caller, .genesis)] }

def gateAt (s : Keeper) (i : Nat) : Option (GateCaller × GatePhase) := (s.gates[i]?).join

def setGate (s : Keeper) (i : Nat) (gate : Option (GateCaller × GatePhase)) : Keeper :=
  { s with gates := s.gates.set i gate }

/-- The cached result is of an age that may be reused: not too old, and not from the future. -/
def reusable (s : Keeper) (now : Int) : Bool :=
  s.live && s.lastOkAt.any fun ok => decide (0 ≤ now - ok) && decide (now - ok < revalidateTtlMs)

def markVerified (s : Keeper) (t : Int) : Keeper := { s with live := true, lastOkAt := some t }

/-- What `runKeeperOnce` makes of its gate before it ticks. -/
def ticked (s : Keeper) : GateResult → Keeper × List KeeperOutput
  | .fatal reason => ({ s with exited := true }, [.exit reason])
  | .degraded reason => (s, [.degraded reason])
  | .ok _ genesisVerifiedAt => (s.markVerified genesisVerifiedAt, [.stamped genesisVerifiedAt])

/-- `revalidate`, from the end of its check on -/
def rechecked (s : Keeper) (now : Int) : GateResult → Keeper × List KeeperOutput
  | .ok _ genesisVerifiedAt =>
    ({ s with live := true, lastOkAt := some now }, [.stamped genesisVerifiedAt, .rechecked true])
  | _ => ({ s with live := false }, [.rechecked false])

def resume (cfg : KeeperConfig) (s : Keeper) (i : Nat) (awaited : GateAwaited) :
    Keeper × List KeeperOutput :=
  match s.gateAt i with
  | none => (s, [])
  | some (caller, phase) =>
    match caller, phase, awaited with
    | .runOnce, .returned result, .returned _ => (s.setGate i none).ticked result
    | .revalidate, .returned result, .returned now => (s.setGate i none).rechecked now result
    | _, _, _ => (s.setGate i (some (caller, keeperReadiness cfg phase awaited)), [])

def step (cfg : KeeperConfig) : Machine Keeper KeeperHappening KeeperOutput := fun s h =>
  if s.exited then (s, [])
  else
    match h with
    | .runOnce => (s.gate .runOnce, [])
    | .revalidate now =>
      if s.reusable now then (s, [.reused now]) else (s.gate .revalidate, [])
    | .resume i awaited => s.resume cfg i awaited

end Keeper

/-- When the genesis hash was verified that the cached result rests on. -/
def verifiedAt (os : List KeeperOutput) : Option Int :=
  (os.filterMap fun o =>
    match o with
    | .stamped genesisVerifiedAt => some genesisVerifiedAt
    | _ => none).getLast?

end DeadMansVault.Crank
