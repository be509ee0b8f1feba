-- SUMMARY: The poller's pass over one registration: the stage, the crank it drives, and the messages it sends.
import DeadMansVault.Notify.Store
import DeadMansVault.Program.Chain
import Mathlib.Algebra.Order.Floor.Ring
import Mathlib.Data.Rat.Floor
import Mathlib.Order.WithBot

/-!
# The poller

For every registration the server reads the vault, computes how far its owner is
overdue, and acts on it: it reminds the owner, or it drives the distribution. The
durations of the stages come from the registration. What the pass does to the
outside is the list of its effects, in order.
-/

namespace DeadMansVault.Notify

/-! ## Stages -/

/-- Addition of the runtime's numbers, which rounds and may overflow. -/
structure Arithmetic where
  add : WithTop ℚ → WithTop ℚ → WithTop ℚ
  le_add : ∀ a b, 0 < b → a ≤ add a b

/-- So many seconds, as a number of the runtime. -/
def seconds (n : Int) : WithTop ℚ := ((n : ℚ) : WithTop ℚ)

theorem seconds_le_iff {m n : Int} : seconds m ≤ seconds n ↔ m ≤ n := by
  simp [seconds]

structure Stages where
  stage1 : ℚ
  stage2 : ℚ
  stage3 : ℚ

def Row.stages (row : Row) : Stages := ⟨row.stage1, row.stage2, row.stage3⟩

/-- The end of the second stage, after the heartbeat was due. -/
def Stages.second (num : Arithmetic) (stages : Stages) : WithTop ℚ :=
  num.add stages.stage1 stages.stage2

def Stages.grace (num : Arithmetic) (stages : Stages) : WithTop ℚ :=
  num.add (stages.second num) stages.stage3

structure Escalation where
  stage : Nat
  secondsOverdue : Int
  secondsToExecution : WithTop ℚ

def computeStage (num : Arithmetic) (lastHeartbeat interval : Int) (stages : Stages) (now : Int) :
    Escalation :=
  let nextDue := lastHeartbeat + interval
  let secondsOverdue := max 0 (now - nextDue)
  let overdue := seconds secondsOverdue
  let grace := stages.grace num
  {
    stage :=
      if secondsOverdue ≤ 0 then 0
      else if overdue < stages.stage1 then 1
      else if overdue < stages.second num then 2
      else if overdue < grace then 3
      else 4
    secondsOverdue := secondsOverdue
    secondsToExecution := max 0 (num.add grace (seconds (-secondsOverdue))) }

/-! ## Messages -/

/-- How often a stage reminds again. -/
def stageRecurInterval : Nat → Int
  | 1 => 8 * 3600
  | 2 => 4 * 3600
  | _ => 1 * 3600

structure Message where
  title : String
  body : String
  channel : String
  deriving DecidableEq, Repr

inductive Notice
  | stage (n : Nat)
  /-- The distribution has ended. -/
  | complete
  deriving DecidableEq, Repr

def stageMessage (timeText : String) : Notice → Option Message
  | .stage 1 => some {
      title := "Heartbeat due"
      body := "Your Dead Man's Vault check-in is overdue. Open the app to confirm you're OK " ++
        "and reset the timer."
      channel := "heartbeat" }
  | .stage 2 => some {
      title := "Heartbeat overdue"
      body := "Still no check-in. Confirm soon, or your estate plan begins distributing to your " ++
        "beneficiaries." ++ if timeText = "" then "" else " (~" ++ timeText ++ " left)"
      channel := "escalation" }
  | .stage 3 => some {
      title := "Final warning"
      body := "Your estate plan executes in " ++ (if timeText = "" then "soon" else timeText) ++
        ". Confirm your heartbeat now to cancel it."
      channel := "execution" }
  | .stage 4 => some {
      title := "Estate plan executing"
      body := "The grace period elapsed. Your assets are being distributed to your beneficiaries " ++
        "on-chain — automatically, nothing to do."
      channel := "execution" }
  | .complete => some {
      title := "Estate plan complete"
      body := "All assets have been distributed to your beneficiaries on-chain. The vault is " ++
        "settled — nothing more to do."
      channel := "execution" }
  | _ => none

def formatDuration : WithTop ℚ → String
  | some seconds =>
    let d := ⌊seconds / 86400⌋
    let h := ⌊(seconds - 86400 * d) / 3600⌋
    let m := ⌊(seconds - 3600 * ⌊seconds / 3600⌋) / 60⌋
    if 0 < d then toString d ++ "d " ++ toString h ++ "h"
    else if 0 < h then toString h ++ "h " ++ toString m ++ "m"
    else if 0 < m then toString m ++ "m"
    else toString (max 1 ⌊seconds + 1 / 2⌋) ++ "s"
  | none => "Infinityd NaNh"

/-! ## One registration -/

/-- What `readVaultState` returns; the vault exists if its config could be read. -/
structure VaultState where
  config : Option VaultConfig
  lastHeartbeat : Option Int

/-- The heartbeat is taken from a record of this vault only. -/
def readVaultState (s : World) (vault : Pubkey) : VaultState where
  config := s.vaultConfigs vault
  lastHeartbeat := (s.heartbeatRecords (.heartbeat vault)).bind fun hb =>
    if hb.vault = vault then some hb.lastHeartbeat else none

/-- The checks of `networkVerified` and `isLive` in a pass, by what comes before them. -/
inductive Checkpoint
  | entry
  | read
  | probe
  | inactive
  | executor
  deriving DecidableEq

inductive SendResult
  | suppressed
  | unregistered
  | ok
  | failed
  deriving DecidableEq

/-- What a pass meets outside, apart from the chain. -/
structure Surroundings where
  networkVerified : Checkpoint → Bool
  isLive : Checkpoint → Bool
  executorReady : Bool
  fcmWaived : Bool
  /-- The program account is there. -/
  programOk : Bool
  send : SendResult

inductive Effect
  | runExecutor
  | push (deviceToken : String) (message : Message)
  | deleteRegistration
  | updateNotifyState (lastStage : Nat) (lastNotifiedAt : Int)
  deriving DecidableEq

inductive Action
  | netUnverified
  | readError
  | timeout
  | programUnready
  | deregisteredMissing
  | deregisteredInactive
  | noHeartbeat
  | normal
  | noChange
  | noMsg
  | deregisteredUnregistered
  | sent
  | sendFailed
  deriving DecidableEq

structure Report where
  effects : List Effect
  action : Action
  stage : Option Notice := none
  deriving DecidableEq

/-- The pass behind the stage: remind, or drive the distribution. -/
def escalate (row : Row) (now : Int) (env : Surroundings) (escalation : Escalation) : Report :=
  let stage := escalation.stage
  if stage = 0 then
    { effects := if row.lastStage ≠ 0 then [.updateNotifyState 0 0] else []
      action := .normal }
  else
    -- Whatever comes of the executor, the pass goes on.
    let driven : List Effect := if stage = 4 ∧ env.executorReady = true then [.runExecutor] else []
    let escalated := row.lastStage < stage
    let recurDue := stage = row.lastStage ∧ 1 ≤ stage ∧ stage ≤ 3 ∧
      stageRecurInterval stage ≤ now - row.lastNotifiedAt
    let stage4Once := stage = 4 ∧ row.lastStage ≠ 4
    if ¬ escalated ∧ ¬ recurDue ∧ ¬ stage4Once then
      { effects := driven, action := .noChange, stage := some (.stage stage) }
    else match stageMessage (formatDuration escalation.secondsToExecution) (.stage stage) with
    | none => { effects := driven, action := .noMsg, stage := some (.stage stage) }
    | some msg =>
      if env.isLive .executor = false then
        { effects := driven, action := .timeout, stage := some (.stage stage) }
      else if env.networkVerified .executor = false then
        { effects := driven, action := .netUnverified, stage := some (.stage stage) }
      else
        let driven := driven ++ [.push row.deviceToken msg]
        match env.send with
        | .suppressed => { effects := driven, action := .netUnverified, stage := some (.stage stage) }
        | .unregistered =>
          { effects := driven ++ [.deleteRegistration]
            action := .deregisteredUnregistered
            stage := some (.stage stage) }
        | .ok =>
          { effects := driven ++ [.updateNotifyState stage now]
            action := .sent
            stage := some (.stage stage) }
        | .failed => { effects := driven, action := .sendFailed, stage := some (.stage stage) }

/-- The pass over a vault that is inactive or executed: drop the registration, after one
    last message if the owner has seen the distribution begin. -/
def dropInactive (row : Row) (env : Surroundings) (executed : Bool) : Report :=
  let plain : Report :=
    if env.networkVerified .inactive = false then { effects := [], action := .netUnverified }
    else { effects := [.deleteRegistration], action := .deregisteredInactive }
  if executed = true ∧ row.lastStage = 4 ∧ env.fcmWaived = false then
    match stageMessage "" .complete with
    | none => plain
    | some msg =>
      let pushed : List Effect := [.push row.deviceToken msg]
      match env.send with
      | .suppressed => { effects := pushed, action := .netUnverified }
      | .ok | .unregistered =>
        { effects := pushed ++ [.deleteRegistration], action := .deregisteredInactive }
      | .failed => { effects := pushed, action := .sendFailed, stage := some .complete }
  else plain

/-- The pass over one registration; `state` is what reading the vault has given, if it did
    not fail. -/
def processRegistration (num : Arithmetic) (row : Row) (now : Int) (env : Surroundings)
    (state : Option VaultState) : Report :=
  if env.networkVerified .entry = false then { effects := [], action := .netUnverified }
  else match state with
  | none => { effects := [], action := .readError }
  | some state =>
    if env.isLive .read = false then { effects := [], action := .timeout }
    else if env.networkVerified .read = false then { effects := [], action := .netUnverified }
    else match state.config with
    | none =>
      if env.isLive .probe = false then { effects := [], action := .timeout }
      else if env.networkVerified .probe = false then { effects := [], action := .netUnverified }
      else if env.programOk = false then { effects := [], action := .programUnready }
      else { effects := [.deleteRegistration], action := .deregisteredMissing }
    | some config =>
      if config.active = false ∨ config.executed = true then dropInactive row env config.executed
      else match state.lastHeartbeat with
      | none => { effects := [], action := .noHeartbeat }
      | some lastHeartbeat =>
        escalate row now env
          (computeStage num lastHeartbeat config.heartbeatInterval row.stages now)

end DeadMansVault.Notify
