-- SUMMARY: A keeper whose calls are written down with their answers, and what each part of a tick writes.
import DeadMansVault.Crank.Tick
import DeadMansVault.Crank.Traversal
import DeadMansVault.Library.Journal

/-!
# The journal of a keeper

To speak of what the process has been told before it submits something, its calls are written
down with their answers. Nothing reads the journal, so it changes no answer.
-/

namespace DeadMansVault.Crank

open Journal Script

variable {σ α : Type}

/-- A call of the process, with what it is answered. -/
inductive Noted
  | clock (t : Int)
  | genesis (answer : Except JsError String)
  | program (answer : Except JsError ProgramAnswer)
  | balance (answer : Except JsError (Option Int))
  | scanned (answer : Except JsError (List (Pubkey × Option VaultConfig)))
  | heartbeat (key : Pubkey) (answer : Except JsError (Option HeartbeatRecord))
  | sent (submission : Submission) (answer : Except JsError Unit)
  /-- Any other read. -/
  | read

def Noted.isGenesis : Noted → Prop
  | .genesis _ => True
  | _ => False

def Noted.isScan : Noted → Prop
  | .scanned _ => True
  | _ => False

def Noted.isSent : Noted → Prop
  | .sent _ _ => True
  | _ => False

instance Noted.decidableIsSent : (x : Noted) → Decidable x.isSent
  | .sent _ _ => .isTrue trivial
  | .clock _ | .genesis _ | .program _ | .balance _ | .scanned _ | .heartbeat _ _ | .read => .isFalse id

def noteDown (entry : α → Noted) (f : σ → α × σ) : σ × List Noted → α × (σ × List Noted) := fun s =>
  let (a, net) := f s.1
  (a, (net, s.2 ++ [entry a]))

def Client.noteDown (client : Client σ) : Client (σ × List Noted) where
  priorityFee := Crank.noteDown (fun _ => .read) client.priorityFee
  deadline := Crank.noteDown (fun _ => .read) client.deadline
  now := Crank.noteDown (fun _ => .read) client.now
  vaultConfig key := Crank.noteDown (fun _ => .read) (client.vaultConfig key)
  heartbeatRecord key := Crank.noteDown (.heartbeat key) (client.heartbeatRecord key)
  executionLog key := Crank.noteDown (fun _ => .read) (client.executionLog key)
  assetPlan key := Crank.noteDown (fun _ => .read) (client.assetPlan key)
  tokenDist key := Crank.noteDown (fun _ => .read) (client.tokenDist key)
  tokenAccountsByOwner owner program :=
    Crank.noteDown (fun _ => .read) (client.tokenAccountsByOwner owner program)
  accountInfo key := Crank.noteDown (fun _ => .read) (client.accountInfo key)
  tokenAccount key programId := Crank.noteDown (fun _ => .read) (client.tokenAccount key programId)
  sendAndConfirm submission :=
    Crank.noteDown (.sent submission) (client.sendAndConfirm submission)
  onCurve := client.onCurve
  foreignAta := client.foreignAta

def Rpc.noteDown (rpc : Rpc σ) : Rpc (σ × List Noted) where
  client := rpc.client.noteDown
  now := Crank.noteDown .clock rpc.now
  getGenesisHash := Crank.noteDown .genesis rpc.getGenesisHash
  getAccountInfo := Crank.noteDown .program rpc.getAccountInfo
  getBalance := Crank.noteDown .balance rpc.getBalance
  getProgramAccounts := Crank.noteDown .scanned rpc.getProgramAccounts
  sleep wait s := (rpc.sleep wait s.1, s.2)

/-! ## Rules -/

/-- The latest gate has verified the genesis hash, the program and the balance; `stamp` is the
    clock's reading at the first of them, or the one that comes right after the last. -/
def Vouched (cfg : KeeperConfig) (es : List Noted) (stamp : Int) : Prop :=
  ∃ before hash g lamports since,
    Latest Noted.isGenesis es before (.genesis (.ok hash)) (.clock g ::
      .program (.ok (.account true)) :: .balance (.ok (some lamports)) :: since) ∧
    cfg.canonical hash = true ∧ hash = cfg.expectedGenesis ∧
    0 ≤ lamports ∧ cfg.minLamports ≤ lamports ∧
    (stamp = g ∨ since.head? = some (.clock stamp))

/-- The clock has just been read, and the stamp of the latest gate is fresh. -/
def Backed (cfg : KeeperConfig) (es : List Noted) : Prop :=
  ∃ earlier t stamp, es = earlier ++ [.clock t] ∧ Vouched cfg es stamp ∧
    stamp ≤ t ∧ t < stamp + revalidateTtlMs

/-- Since the latest scan the heartbeat of the vault has been read, and then the clock, with the
    deadline behind it. -/
def Expired (vault : Pubkey) (v : VaultConfig) (since : List Noted) : Prop :=
  ∃ early late hb t, since = early ++ .heartbeat (.heartbeat vault) (.ok (some hb)) ::
      .clock t :: late ∧
    hb.lastHeartbeat + v.heartbeatInterval + v.gracePeriod ≤ t / 1000

/-- The latest scan lists a vault that is executed, and the transaction cleans up after it; or one
    that is active and due, and the transaction is one of its execution. -/
def Warranted (closeExecuted : Bool) (es : List Noted) (submission : Submission) : Prop :=
  ∃ before listed since vault v,
    Latest Noted.isScan es before (.scanned (.ok listed)) since ∧ (vault, some v) ∈ listed ∧
    (v.executed = true ∧ closeExecuted = true ∧ submission.CleansUp vault v.beneficiaries ∨
      v.executed = false ∧ v.active = true ∧ Expired vault v since ∧
        submission.Cranks vault v.beneficiaries)

def Justified (cfg : KeeperConfig) (closeExecuted : Bool) (es : List Noted) : Noted → Prop
  | .sent submission _ => Backed cfg es ∧ Warranted closeExecuted es submission
  | _ => True

end DeadMansVault.Crank
