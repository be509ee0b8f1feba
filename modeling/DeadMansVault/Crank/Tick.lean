-- SUMMARY: The keeper's process: the ticks over the scanned vaults, the gate in front of them, and the loop.
import DeadMansVault.Crank.Cranks
import DeadMansVault.Crank.Readiness

/-!
# The process of the keeper

The loop gates and ticks. A tick scans the program's vaults, and goes through them one by
one: it cranks those that are due, and cleans up those that are executed. What goes wrong at
a vault is left behind there, ends the tick, or leaves the process. All of it is one thread
of awaits, so no two gates are ever at work at once.
-/

namespace DeadMansVault.Crank

variable {σ τ α : Type}

/-! ## Faults -/

inductive VaultDecision
  | halt
  | skip
  | fatal
  deriving DecidableEq, Repr

def classifyVaultError (e : JsError) : VaultDecision :=
  if e.message = keeperHalt then .halt
  else if e.name = "TimeoutError" then .skip
  else if isOperational e then .skip
  else .fatal

def isTransientScanError (e : JsError) : Bool :=
  decide (e.name = "TimeoutError") || isOperational e

/-! ## The tick -/

/-- What a tick calls beside the cranks. -/
structure Surroundings (τ : Type) where
  client : Client τ
  /-- An account whose data does not decode is listed without a config. -/
  getProgramAccounts : τ → Except JsError (List (Pubkey × Option VaultConfig)) × τ
  getBalance : τ → Except JsError (Option Int) × τ
  revalidate : τ → Bool × τ

/-- A call that does not throw. -/
def perform (f : τ → α × τ) : Routine τ α := fun r =>
  let (a, net) := f r.net
  .ok a { r with net }

/-- A pass over one vault has a log of its own, which the log of the process takes up. -/
def apart (x : Routine τ α) : Routine τ α := fun r =>
  match x ⟨r.net, []⟩ with
  | .ok a r' => .ok a ⟨r'.net, r.log ++ r'.log⟩
  | .error e r' => .error e ⟨r'.net, r.log ++ r'.log⟩

/-- How the loop over the vaults goes on. -/
inductive Visit
  | next
  | halted
  | deadlineHit
  deriving DecidableEq, Repr

structure TickResult where
  ok : Bool
  scanFailed : Bool
  reason : Option String := none
  deriving DecidableEq, Repr

section Tick

variable (env : Surroundings τ) (keeper : Pubkey) (closeExecuted : Bool)

/-- `canSubmit: revalidate` -/
def Surroundings.canSubmit : CanSubmit τ := some fun s =>
  let (ok, s) := env.revalidate s
  (.promise (some ok), s)

/-- The work on one vault, unless something throws. -/
def attend (vault : Pubkey) (cfg : VaultConfig) : Routine τ Visit := do
  if cfg.executed then
    if closeExecuted = false then pure .next
    else if (← perform env.revalidate) = false then pure .halted
    else
      let _ ← apart (cleanupExecutedVault env.client keeper vault cfg env.canSubmit)
      pure .next
  else if cfg.active = false then pure .next
  else
    let hb ← fetch (env.client.heartbeatRecord (.heartbeat vault))
    let lastHeartbeat ← toNumber hb.lastHeartbeat
    let heartbeatInterval ← toNumber cfg.heartbeatInterval
    let gracePeriod ← toNumber cfg.gracePeriod
    let now ← perform env.client.now
    if now < lastHeartbeat + heartbeatInterval + gracePeriod then pure .next
    else if (← perform env.revalidate) = false then pure .halted
    else
      let _ ← apart (crankVault env.client keeper vault cfg env.canSubmit)
      pure .next

/-- One turn of the loop; an unknown fault leaves it. -/
def visit (vault : Pubkey) (cfg : VaultConfig) : Routine τ Visit :=
  tryCatch (attend env keeper closeExecuted vault cfg) fun e =>
    if e.name = "TimeoutError" then pure .deadlineHit
    else match classifyVaultError e with
      | .halt => pure .halted
      | .fatal => throw e
      | .skip => pure .next

def visits : List (Pubkey × VaultConfig) → Routine τ Visit
  | [] => pure .next
  | (vault, cfg) :: rest => do
    match ← visit env keeper closeExecuted vault cfg with
    | .next => visits rest
    | ending => pure ending

/-- The vaults whose configs decode. -/
def scanVaults : Routine τ (List (Pubkey × VaultConfig)) := do
  let raw ← call env.getProgramAccounts
  return raw.filterMap fun account => account.2.map fun cfg => (account.1, cfg)

/-- After the loop. The balance is only shown. -/
def ticked (ending : Visit) : Routine τ TickResult :=
  if ending = .deadlineHit then
    pure { ok := false, scanFailed := true, reason := some "pass_deadline" }
  else do
    tryCatch (do let _ ← call env.getBalance) fun _ => pure ⟨⟩
    pure { ok := decide (ending ≠ .halted), scanFailed := false }

/-- The scan, or the reason why it is given up on. -/
def scan : Routine τ (Except String (List (Pubkey × VaultConfig))) :=
  tryCatch (Except.ok <$> scanVaults env) fun e =>
    if isTransientScanError e = false then throw e
    else pure (.error (if e.name = "TimeoutError" then "scan_timeout" else "scan_failed"))

def tick : Routine τ TickResult := do
  match ← scan env with
  | .error reason => pure { ok := false, scanFailed := true, reason := some reason }
  | .ok vaults =>
    let ending ← visits env keeper closeExecuted vaults
    ticked env ending

end Tick

/-! ## The process -/

/-- What the process calls beside the client of its cranks, whose clock it does not use. -/
structure Rpc (σ : Type) where
  client : Client σ
  /-- `Date.now()` -/
  now : σ → Int × σ
  getGenesisHash : σ → Except JsError String × σ
  /-- Of the program's account. -/
  getAccountInfo : σ → Except JsError ProgramAnswer × σ
  getBalance : σ → Except JsError (Option Int) × σ
  getProgramAccounts : σ → Except JsError (List (Pubkey × Option VaultConfig)) × σ
  /-- For `pollMs`, or as long as the backoff of this attempt. -/
  sleep : Option Nat → σ → σ

/-- The process has a cache of its readiness. -/
structure Process (σ : Type) where
  net : σ
  cache : Keeper := {}

/-- The call leaves the cache alone. -/
def Process.calling (f : σ → α × σ) : Process σ → α × Process σ := fun p =>
  let (a, net) := f p.net
  (a, { p with net })

def Client.calling (client : Client σ) : Client (Process σ) where
  priorityFee := Process.calling client.priorityFee
  deadline := Process.calling client.deadline
  now := Process.calling client.now
  vaultConfig key := Process.calling (client.vaultConfig key)
  heartbeatRecord key := Process.calling (client.heartbeatRecord key)
  executionLog key := Process.calling (client.executionLog key)
  assetPlan key := Process.calling (client.assetPlan key)
  tokenDist key := Process.calling (client.tokenDist key)
  tokenAccountsByOwner owner program := Process.calling (client.tokenAccountsByOwner owner program)
  accountInfo key := Process.calling (client.accountInfo key)
  tokenAccount key programId := Process.calling (client.tokenAccount key programId)
  sendAndConfirm submission := Process.calling (client.sendAndConfirm submission)
  onCurve := client.onCurve
  foreignAta := client.foreignAta

section Process

variable (cfg : KeeperConfig) (rpc : Rpc σ)

/-- `keeperReadiness`, as one thread awaits it -/
def gate (s : σ) : GateResult × σ :=
  let (genesis, s) := rpc.getGenesisHash s
  match classifyGenesis cfg.canonical cfg.expectedGenesis genesis with
  | .mismatch => (.fatal "genesis_mismatch", s)
  | .unknown reason => (.degraded ("network_" ++ reason), s)
  | .verified =>
    let (genesisVerifiedAt, s) := rpc.now s
    let (program, s) := rpc.getAccountInfo s
    match checkProgramAccount program with
    | .unknown reason => (.degraded ("program_" ++ reason), s)
    | .failed reason => (.fatal reason, s)
    | .ok =>
      let (balance, s) := rpc.getBalance s
      match balance with
      | .error e => (.degraded ("balance_" ++ reasonCode e), s)
      | .ok lamports =>
        match evaluateBalance cfg.minLamports cfg.warnLamports lamports with
        | .failed reason => (.degraded reason, s)
        | .ok low => (.ok low genesisVerifiedAt, s)

/-- It is what `keeperReadiness` returns, resumed with the same answers. -/
theorem gate_phases {s s₁ s₂ s₃ s₄ : σ} {genesis : Except JsError String} {now : Int}
    {program : Except JsError ProgramAnswer} {balance : Except JsError (Option Int)}
    (hgenesis : rpc.getGenesisHash s = (genesis, s₁)) (hnow : rpc.now s₁ = (now, s₂))
    (hprogram : rpc.getAccountInfo s₂ = (program, s₃))
    (hbalance : rpc.getBalance s₃ = (balance, s₄)) :
    [.genesis genesis now, .program program, .balance balance].foldl (keeperReadiness cfg)
      .genesis = .returned (gate cfg rpc s).1 := by
  simp only [gate, hgenesis, List.foldl, keeperReadiness]
  cases classifyGenesis cfg.canonical cfg.expectedGenesis genesis with
  | mismatch => rfl
  | unknown => rfl
  | verified =>
      simp only [hnow, hprogram]
      cases checkProgramAccount program with
      | unknown => rfl
      | failed => rfl
      | ok =>
          simp only [hbalance]
          cases balance with
          | error e => rfl
          | ok lamports =>
              dsimp only
              cases evaluateBalance cfg.minLamports cfg.warnLamports lamports <;> rfl

/-- `makeReadinessRevalidator`, with the gate as its check. -/
def revalidate (p : Process σ) : Bool × Process σ :=
  let (t, net) := rpc.now p.net
  if p.cache.reusable t then (true, { p with net })
  else
    match gate cfg rpc net with
    | (.ok _ _, net) =>
      let (now, net) := rpc.now net
      (true, { net, cache := p.cache.markVerified now })
    | (_, net) => (false, { net, cache := { p.cache with live := false } })

def surroundings : Surroundings (Process σ) where
  client := { rpc.client.calling with
    now := fun p => let (t, net) := rpc.now p.net; (t / 1000, { p with net }) }
  getProgramAccounts := Process.calling rpc.getProgramAccounts
  getBalance := Process.calling rpc.getBalance
  revalidate := revalidate cfg rpc

/-- Whether the pass is complete; `none` is that the process has left. -/
def runKeeperOnce (keeper : Pubkey) (closeExecuted : Bool) : Routine (Process σ) (Option Bool) := do
  match ← perform (Process.calling (gate cfg rpc)) with
  | .fatal _ => pure none
  | .degraded _ => pure (some false)
  | .ok _ genesisVerifiedAt =>
    perform fun p => ((), { p with cache := p.cache.markVerified genesisVerifiedAt })
    let t ← tick (surroundings cfg rpc) keeper closeExecuted
    pure (some (!t.scanFailed && t.ok))

/-- So many turns of the loop, unless a fault leaves it. -/
def runLoop (keeper : Pubkey) (closeExecuted : Bool) : Nat → Nat → Routine (Process σ) PUnit
  | 0, _ => pure ⟨⟩
  | turns + 1, backoffAttempt => do
    match ← runKeeperOnce cfg rpc keeper closeExecuted with
    | none => pure ⟨⟩
    | some true =>
      perform fun p => ((), { p with net := rpc.sleep none p.net })
      runLoop keeper closeExecuted turns 0
    | some false =>
      perform fun p => ((), { p with net := rpc.sleep (some (backoffAttempt + 1)) p.net })
      runLoop keeper closeExecuted turns (backoffAttempt + 1)

end Process

end DeadMansVault.Crank
