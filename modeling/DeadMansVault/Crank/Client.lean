-- SUMMARY: What a crank sees of the cluster: its reads, its submissions, their faults, and the readiness check.
import Mathlib.Data.List.Sort
import DeadMansVault.Library.Script
import DeadMansVault.Program.Step

/-!
# The client of a crank

The keeper, the server and the app drive a distribution through an RPC client.
Every read and every submission may fail, and may answer whatever it likes; what
is behind the client is a type `σ` of its own. A run keeps a log of the readiness
checks, the submissions, and the assets that it has given up on.
-/

namespace DeadMansVault.Crank

/-! ## Faults -/

/-- What the code looks at in an error. -/
structure JsError where
  name : String
  message : String
  /-- `cause.code ?? code` -/
  code : String := ""
  /-- An instance of `TypeError`, `ReferenceError`, `RangeError` or `SyntaxError`. -/
  native : Bool := false
  /-- The error carries program logs. -/
  logs : Bool := false
  deriving DecidableEq, Repr

def transportCodes : List String :=
  ["econnrefused", "econnreset", "enotfound", "eai_again", "etimedout", "epipe", "und_err"]

def operationalMessages : List String :=
  ["blockhash not found", "transaction simulation failed", "simulation failed", "preflight",
    "custom program error", "timed out", "request timed out", "timeout of", "429",
    "too many requests", "rate limit", "econnrefused", "econnreset", "enotfound", "eai_again",
    "getaddrinfo", "etimedout", "epipe", "und_err", "network error", "socket hang up",
    "node is behind", "insufficient funds", "insufficient lamports", "closedelaynotelapsed",
    "already been processed", "not been confirmed", "not confirmed in", "block height exceeded",
    "signature verification", "account does not exist", "account not exist",
    "accountnotinitialized"]

def trim (s : List Char) : List Char :=
  ((s.dropWhile Char.isWhitespace).reverse.dropWhile Char.isWhitespace).reverse

/-- `isOperationalExecutorError` of the server, and `isOperationalCrankError` of the keeper. -/
def isOperational (e : JsError) : Bool :=
  let m := e.message.toLower.toList
  let code := e.code.toLower.toList
  if e.name = "TimeoutError" then true
  else if trim m = "fetch failed".toList then true
  else if transportCodes.any fun c => decide (c.toList <+: code) then true
  else if e.native then false
  else if e.name = "SendTransactionError" ∨ e.name = "AnchorError" ∨ e.name = "ProgramError" then true
  else if e.logs then true
  else operationalMessages.any fun p => decide (p.toList <:+: m)

def error (message : String) : JsError := { name := "Error", message }

/-- A property of `undefined` is read. -/
def typeError : JsError :=
  { name := "TypeError", message := "Cannot read properties of undefined", native := true }

/-! ## Submissions -/

/-- The owner of a mint. Nothing makes a bequest name a mint of a token program. -/
inductive ProgramId
  | token (program : TokenProgram)
  | other (n : Nat)
  deriving DecidableEq, Repr

/-- A transaction. Each carries one instruction, but for the harvest of withheld fees that may
    precede the closing of a TokenDist. -/
inductive Submission
  | createAta (ata owner mint : Pubkey) (programId : ProgramId)
  | invoke (instruction : Instruction)
  /-- An instruction that is passed a token program, and the accounts harvested before it. -/
  | invokeWith (programId : ProgramId) (harvest : List Pubkey)
      (instruction : TokenProgram → Instruction)

/-! ## The client -/

/-- The answers to the calls; each may change what the client stands for. -/
structure Client (σ : Type) where
  /-- `getPriorityFee`; the fee is only ever passed on. -/
  priorityFee : σ → Except JsError Unit × σ
  /-- The deadline of a keeper's pass: it throws a `TimeoutError` once the time is up. -/
  deadline : σ → Except JsError Unit × σ
  /-- `Math.floor(Date.now() / 1000)` -/
  now : σ → Int × σ
  vaultConfig : Pubkey → σ → Except JsError (Option VaultConfig) × σ
  heartbeatRecord : Pubkey → σ → Except JsError (Option HeartbeatRecord) × σ
  executionLog : Pubkey → σ → Except JsError (Option ExecutionLog) × σ
  assetPlan : Pubkey → σ → Except JsError (Option AssetPlan) × σ
  tokenDist : Pubkey → σ → Except JsError (Option TokenDist) × σ
  /-- `getParsedTokenAccountsByOwner`: the mint and the amount of each account. -/
  tokenAccountsByOwner : Pubkey → TokenProgram → σ → Except JsError (List (Pubkey × Nat)) × σ
  /-- `getAccountInfo`: the owner of the account. -/
  accountInfo : Pubkey → σ → Except JsError (Option ProgramId) × σ
  /-- `getAccount`: the amount, and the withheld transfer fees. -/
  tokenAccount : Pubkey → ProgramId → σ → Except JsError (Nat × Nat) × σ
  sendAndConfirm : Submission → σ → Except JsError Unit × σ
  onCurve : Pubkey → Bool
  /-- The associated token address under a program that is no token program. -/
  foreignAta : Pubkey → Pubkey → Nat → Pubkey

/-- What `canSubmit` does when it is called. -/
inductive Reply
  | value (truthy : Bool)
  | threw
  /-- A promise, with the truth of what it resolves to, if it does not reject. -/
  | promise (settled : Option Bool)
  deriving DecidableEq, Repr

/-- A `canSubmit` that is not there, or that answers each call. -/
abbrev CanSubmit (σ : Type) := Option (σ → Reply × σ)

/-! ## Runs -/

/-- Where an asset was given up on. -/
inductive StuckStep
  | beginTokenDist
  | executeSpecificSol
  | executeSpecificAsset
  | executeTokenShares
  | closeTokenDist
  deriving DecidableEq, Repr

inductive Entry
  /-- The readiness check is made, with nothing where there is no `canSubmit` to call. -/
  | evaluated (reply : Option Reply)
  | submitted (submission : Submission)
  | stuck (mint : Pubkey) (step : StuckStep)
  /-- A SOL bequest is left out. -/
  | skippedSol

structure Run (σ : Type) where
  net : σ
  log : List Entry

abbrev Routine (σ : Type) := EStateM JsError (Run σ)

variable {σ : Type}

/-- `stuckMints` -/
def Run.stuckMints (r : Run σ) : List Pubkey :=
  r.log.filterMap fun entry => match entry with
    | .stuck mint _ => some mint
    | _ => none

/-- `skipped`, with nothing for the mint of a SOL bequest. -/
def Run.skipped (r : Run σ) : List (Option Pubkey × StuckStep) :=
  r.log.filterMap fun entry => match entry with
    | .stuck mint step => some (some mint, step)
    | .skippedSol => some (none, .executeSpecificSol)
    | _ => none

def record (entry : Entry) : Routine σ PUnit :=
  modify fun r => { r with log := r.log ++ [entry] }

def call {α : Type} (f : σ → Except JsError α × σ) : Routine σ α := fun r =>
  match f r.net with
  | (.ok a, net) => .ok a { r with net }
  | (.error e, net) => .error e { r with net }

/-- `fetch`: an account that must be there. -/
def fetch {α : Type} (f : σ → Except JsError (Option α) × σ) : Routine σ α := do
  match ← call f with
  | some a => pure a
  | none => throw (error "Account does not exist or has no data")

def submit (client : Client σ) (submission : Submission) : Routine σ PUnit := do
  record (.submitted submission)
  call (client.sendAndConfirm submission)

def markStuck (mint : Pubkey) (step : StuckStep) : Routine σ PUnit :=
  record (.stuck mint step)

def isStuck (mint : Pubkey) : Routine σ Bool := do
  return decide (mint ∈ (← get).stuckMints)

/-! ## Readiness guards -/

/-- `typeof canSubmit === 'function' ? canSubmit() : …`, in whatever way it ends. -/
def evaluate (canSubmit : CanSubmit σ) : Routine σ (Option Reply) := fun r =>
  match canSubmit with
  | none => .ok none { r with log := r.log ++ [.evaluated none] }
  | some f =>
    let (reply, net) := f r.net
    .ok (some reply) { net, log := r.log ++ [.evaluated (some reply)] }

def readinessRevoked : String := "__READINESS_REVOKED__"

/-- The server's guard. It cannot await a promise. -/
def makeSubmitGuard (canSubmit : CanSubmit σ) : Routine σ PUnit := do
  match ← evaluate canSubmit with
  | none => throw (error readinessRevoked)
  | some .threw => throw (error readinessRevoked)
  | some (.promise _) => throw (error readinessRevoked)
  | some (.value v) => if v = false then throw (error readinessRevoked)

def keeperHalt : String := "__KEEPER_READINESS_REVOKED__"

/-- The keeper's guard. It awaits whatever it gets. -/
def makeKeeperGuard (canSubmit : CanSubmit σ) : Routine σ PUnit := do
  match ← evaluate canSubmit with
  | none => throw (error keeperHalt)
  | some .threw | some (.promise none) => throw (error keeperHalt)
  | some (.promise (some ok)) | some (.value ok) => if ok = false then throw (error keeperHalt)

/-! ## Helpers of both cranks -/

/-- `toNumber` of a big number. -/
def toNumber (n : Int) : Routine σ Int :=
  if n.natAbs < 2 ^ 53 then pure n
  else throw (error "Number can only safely store up to 53 bits")

def Client.ata (client : Client σ) (mint owner : Pubkey) : ProgramId → Pubkey
  | .token program => .associatedToken owner mint program
  | .other n => client.foreignAta owner mint n

def getAssociatedTokenAddress (client : Client σ) (mint owner : Pubkey)
    (allowOwnerOffCurve : Bool) (programId : ProgramId) : Routine σ Pubkey :=
  if allowOwnerOffCurve = false ∧ client.onCurve owner = false then
    throw { name := "TokenOwnerOffCurveError", message := "" }
  else pure (client.ata mint owner programId)

def bitSet {w : Nat} (mask : BitVec w) (i : Nat) : Bool := mask.getLsbD i

def fullMask (n : Nat) : Nat := 2 ^ n - 1

def batch : Nat := 8

def chunk {α : Type} (xs : List α) (n : Nat) : List (List α) :=
  (List.range ((xs.length + n - 1) / n)).map fun k => (xs.drop (k * n)).take n

/-- The index of the largest share, and the first of them: the same text in the server's
    `executor.js` and in the keeper's `crank.js`. -/
def largestShareIndex (beneficiaries : List Beneficiary) : Nat :=
  (beneficiaries.zipIdx.foldl (fun (best : Nat × Int) (b : Beneficiary × Nat) =>
    if best.2 < b.1.shareBps then (b.2, (b.1.shareBps : Int)) else best) (0, -1)).1

/-- `beneficiaries[i].wallet` -/
def walletAt (beneficiaries : List Beneficiary) (i : Nat) : Routine σ Pubkey :=
  match beneficiaries[i]? with
  | some b => pure b.wallet
  | none => throw typeError

end DeadMansVault.Crank
