-- SUMMARY: The accounts of the chain, the ledgers of lamports and tokens, and the runtime calls the handlers make.
import DeadMansVault.Library.Guard
import DeadMansVault.Library.Ledger
import DeadMansVault.Program.Errors
import DeadMansVault.Program.State

/-!
# The chain

`World` holds every account the program can see, keyed by address: its own
accounts, token accounts, mints, and the lamports and token amounts at each
address. Each call that moves value also records it in `moved`, the list of
movements of the instruction in progress, so that a result can speak about who
was paid what and why.
-/

namespace DeadMansVault

/-- What the cluster fixes: the build profile, the rent table, and the token
    program that owns the mint at an address. -/
structure Cluster where
  devnet : Bool
  /-- `Rent::minimum_balance` -/
  minimumBalance : Nat → Nat
  tokenProgram : Pubkey → TokenProgram

/-- A token account, less its amount. Its bytes may sit in an account that no
    token program owns (`program = none`), and then say anything. -/
structure TokenAccount where
  program : Option TokenProgram
  mint : Pubkey
  owner : Pubkey
  deriving DecidableEq, Repr

structure Mint where
  decimals : Nat
  deriving DecidableEq, Repr

inductive Asset
  | sol
  | token (mint : Pubkey)
  deriving DecidableEq, Repr

/-- Which line of the program moves value. -/
inductive Purpose
  /-- Rent of an account being created. -/
  | rent
  /-- Lamports of an account being closed. -/
  | refund
  | creationFee
  | withdrawal
  | solShare (index : Nat)
  | specificSol (assignment : Nat)
  | bounty
  | solDust
  | tokenShare (index : Nat)
  | specificAsset (assignment : Nat)
  | tokenDust
  deriving DecidableEq, Repr

structure Movement where
  asset : Asset
  source : Pubkey
  dest : Pubkey
  /-- The destination itself, or the owner of a destination token account. -/
  recipient : Pubkey
  amount : Nat
  purpose : Purpose
  deriving DecidableEq, Repr

/-- `Signer`: the transaction carries a signature for the account. -/
def requireSigner (k : Pubkey) : Except ProgramError Unit :=
  require (k.canSign = true) (.anchor .accountNotSigner)

/-- The seeds constraint of a loaded or created account. -/
def requireSeeds (k derived : Pubkey) : Except ProgramError Unit :=
  require (k = derived) (.anchor .constraintSeeds)

structure World where
  /-- `Clock::unix_timestamp` -/
  now : Int
  /-- Lamports. Those that an account of the native mint wraps move with its tokens, and count
      among its `tokenAmounts` only. -/
  lamports : Pubkey → Nat
  vaultConfigs : Pubkey → Option VaultConfig
  heartbeatRecords : Pubkey → Option HeartbeatRecord
  assetPlans : Pubkey → Option AssetPlan
  executionLogs : Pubkey → Option ExecutionLog
  tokenDists : Pubkey → Option TokenDist
  tokenAccounts : Pubkey → Option TokenAccount
  tokenAmounts : Pubkey → Nat
  /-- `TransferFeeAmount::withheld_amount`: what fees on transfers into the account have left there. -/
  withheldFees : Pubkey → Nat
  mints : Pubkey → Option Mint
  /-- What the last instruction has moved, in order. -/
  moved : List Movement

namespace World

/-! ## Writing accounts -/

@[simps] def putVaultConfig (s : World) (k : Pubkey) (v : Option VaultConfig) : World :=
  { s with vaultConfigs := Function.update s.vaultConfigs k v }

@[simps] def putHeartbeatRecord (s : World) (k : Pubkey) (h : Option HeartbeatRecord) : World :=
  { s with heartbeatRecords := Function.update s.heartbeatRecords k h }

@[simps] def putAssetPlan (s : World) (k : Pubkey) (p : Option AssetPlan) : World :=
  { s with assetPlans := Function.update s.assetPlans k p }

@[simps] def putExecutionLog (s : World) (k : Pubkey) (l : Option ExecutionLog) : World :=
  { s with executionLogs := Function.update s.executionLogs k l }

@[simps] def putTokenDist (s : World) (k : Pubkey) (d : Option TokenDist) : World :=
  { s with tokenDists := Function.update s.tokenDists k d }

@[simps] def dropTokenAccount (s : World) (k : Pubkey) : World :=
  { s with tokenAccounts := Function.update s.tokenAccounts k none }

@[simps] def sendLamports (s : World) (source dest : Pubkey) (n : Nat) (purpose : Purpose) :
    World :=
  { s with
    lamports := Ledger.move s.lamports source dest n
    moved := s.moved ++ [⟨.sol, source, dest, dest, n, purpose⟩] }

@[simps] def sendTokens (s : World) (source mint dest recipient : Pubkey) (n : Nat)
    (purpose : Purpose) : World :=
  { s with
    tokenAmounts := Ledger.move s.tokenAmounts source dest n
    moved := s.moved ++ [⟨.token mint, source, dest, recipient, n, purpose⟩] }

/-! ## Loading accounts -/

def loadVaultConfig (s : World) (k : Pubkey) : Except ProgramError VaultConfig :=
  okOr (s.vaultConfigs k) (.anchor .accountNotInitialized)

def loadHeartbeatRecord (s : World) (k : Pubkey) : Except ProgramError HeartbeatRecord :=
  okOr (s.heartbeatRecords k) (.anchor .accountNotInitialized)

def loadAssetPlan (s : World) (k : Pubkey) : Except ProgramError AssetPlan :=
  okOr (s.assetPlans k) (.anchor .accountNotInitialized)

def loadExecutionLog (s : World) (k : Pubkey) : Except ProgramError ExecutionLog :=
  okOr (s.executionLogs k) (.anchor .accountNotInitialized)

def loadTokenDist (s : World) (k : Pubkey) : Except ProgramError TokenDist :=
  okOr (s.tokenDists k) (.anchor .accountNotInitialized)

def loadMint (s : World) (k : Pubkey) : Except ProgramError Mint :=
  okOr (s.mints k) (.anchor .accountNotInitialized)

/-- `InterfaceAccount<TokenAccount>`: the account is owned by a token program. -/
def loadTokenAccount (s : World) (k : Pubkey) : Except ProgramError TokenAccount := do
  let account ← okOr (s.tokenAccounts k) (.anchor .accountNotInitialized)
  require (account.program.isSome = true) (.anchor .accountNotInitialized)
  pure account

/-- `Option<Account<AssetPlan>>` pinned to `[b"asset_plan", vault]`: an account
    the caller leaves out is `none`; one that is passed must load. -/
def loadOptionalAssetPlan (s : World) (vault : Pubkey) :
    Option Pubkey → Except ProgramError (Option AssetPlan)
  | none => pure none
  | some k => do
    let plan ← s.loadAssetPlan k
    require (k = .assetPlan vault) (.anchor .constraintSeeds)
    pure (some plan)

/-! ## Moving lamports -/

/-- Checked debit of `source`, then checked credit of `dest`. -/
def transferLamports (s : World) (source dest : Pubkey) (n : Nat) (purpose : Purpose)
    (short overflow : ProgramError) : Except ProgramError World := do
  require (n ≤ s.lamports source) short
  require (Function.update s.lamports source (s.lamports source - n) dest + n ≤ u64Max) overflow
  pure (s.sendLamports source dest n purpose)

/-- The direct debit and credit the handlers write out by hand; both checked
    operations fail with `InsufficientVaultBalance`. -/
def payLamports (s : World) (source dest : Pubkey) (n : Nat) (purpose : Purpose) :
    Except ProgramError World :=
  s.transferLamports source dest n purpose (.vault .insufficientVaultBalance)
    (.vault .insufficientVaultBalance)

/-- `if n > 0 { … }` around such a debit and credit. -/
def payPositive (s : World) (source dest : Pubkey) (n : Nat) (purpose : Purpose) :
    Except ProgramError World :=
  if 0 < n then s.payLamports source dest n purpose else pure s

/-- A transfer by the system program. -/
def systemTransfer (s : World) (source dest : Pubkey) (n : Nat) (purpose : Purpose) :
    Except ProgramError World :=
  s.transferLamports source dest n purpose .insufficientFunds .arithmeticOverflow

/-- Anchor's `init`: fund the address up to its rent. The caller of this function
    has checked that the address holds no account of the program yet. -/
def fundRent (c : Cluster) (s : World) (payer k : Pubkey) (space : Nat) :
    Except ProgramError World :=
  let rent := c.minimumBalance space
  let needed := if s.lamports k = 0 then rent else max rent 1 - s.lamports k
  s.systemTransfer payer k needed .rent

/-- Anchor's `close = dest`, without the removal of the data. -/
def refundLamports (s : World) (k dest : Pubkey) : Except ProgramError World :=
  s.transferLamports k dest (s.lamports k) .refund .arithmeticOverflow .arithmeticOverflow

/-- The hand-written close of an AssetPlan: lamports to `dest`, data freed. -/
def closeAssetPlan (s : World) (k dest : Pubkey) : Except ProgramError World := do
  let s ← s.transferLamports k dest (s.lamports k) .refund
    (.vault .insufficientVaultBalance) (.vault .insufficientVaultBalance)
  pure (s.putAssetPlan k none)

/-! ## The token programs -/

/-- `transfer_checked`, of a mint that takes no fee for it. -/
def transferChecked (c : Cluster) (s : World) (program : TokenProgram)
    (source mint dest authority : Pubkey) (n decimals : Nat) (purpose : Purpose) :
    Except ProgramError World := do
  let sourceAccount ← okOr (s.tokenAccounts source) (.token .incorrectProgramId)
  let destAccount ← okOr (s.tokenAccounts dest) (.token .incorrectProgramId)
  let mintAccount ← okOr (s.mints mint) (.token .incorrectProgramId)
  require (sourceAccount.program = some program ∧ destAccount.program = some program ∧
    c.tokenProgram mint = program) (.token .incorrectProgramId)
  require (sourceAccount.mint = mint ∧ destAccount.mint = mint) (.token .mintMismatch)
  require (mintAccount.decimals = decimals) (.token .mintDecimalsMismatch)
  require (sourceAccount.owner = authority) (.token .ownerMismatch)
  require (n ≤ s.tokenAmounts source) (.token .insufficientFunds)
  require (Function.update s.tokenAmounts source (s.tokenAmounts source - n) dest + n ≤ u64Max)
    (.token .overflow)
  pure (s.sendTokens source mint dest destAccount.owner n purpose)

/-- `if n > 0 { … }` around a `transfer_checked`. -/
def transferPositive (c : Cluster) (s : World) (program : TokenProgram)
    (source mint dest authority : Pubkey) (n decimals : Nat) (purpose : Purpose) :
    Except ProgramError World :=
  if 0 < n then s.transferChecked c program source mint dest authority n decimals purpose
  else pure s

/-- `close_account`. Only an account of the native mint could be closed with a balance, which
    the program never asks for. -/
def closeTokenAccount (s : World) (program : TokenProgram) (k dest authority : Pubkey) :
    Except ProgramError World := do
  let account ← okOr (s.tokenAccounts k) (.token .incorrectProgramId)
  require (account.program = some program) (.token .incorrectProgramId)
  require (s.tokenAmounts k = 0) (.token .nonNativeHasBalance)
  require (account.owner = authority) (.token .ownerMismatch)
  require (s.withheldFees k = 0) (.token .accountHasWithheldTransferFees)
  let s ← s.transferLamports k dest (s.lamports k) .refund (.token .overflow) (.token .overflow)
  pure (s.dropTokenAccount k)

/-- `harvest_withheld_tokens_to_mint`, which anyone may submit. -/
@[simps] def harvest (s : World) (ks : List Pubkey) : World :=
  { s with withheldFees := fun k => if k ∈ ks then 0 else s.withheldFees k }

/-- `get_associated_token_address_with_program_id`, with the program that owns
    the mint. -/
def canonicalAta (c : Cluster) (vault mint : Pubkey) : Pubkey :=
  .associatedToken vault mint (c.tokenProgram mint)

/-! ## Reading successful calls back -/

variable {c : Cluster} {s s' : World}

@[simp] theorem requireSigner_eq_ok {k : Pubkey} {u : Unit} :
    requireSigner k = .ok u ↔ k.canSign = true := by
  simp [requireSigner]

@[simp] theorem requireSeeds_eq_ok {k derived : Pubkey} {u : Unit} :
    requireSeeds k derived = .ok u ↔ k = derived := by
  simp [requireSeeds]

@[simp] theorem loadVaultConfig_eq_ok {k : Pubkey} {v : VaultConfig} :
    s.loadVaultConfig k = .ok v ↔ s.vaultConfigs k = some v := by
  simp [loadVaultConfig]

@[simp] theorem loadHeartbeatRecord_eq_ok {k : Pubkey} {h : HeartbeatRecord} :
    s.loadHeartbeatRecord k = .ok h ↔ s.heartbeatRecords k = some h := by
  simp [loadHeartbeatRecord]

@[simp] theorem loadAssetPlan_eq_ok {k : Pubkey} {p : AssetPlan} :
    s.loadAssetPlan k = .ok p ↔ s.assetPlans k = some p := by
  simp [loadAssetPlan]

@[simp] theorem loadExecutionLog_eq_ok {k : Pubkey} {l : ExecutionLog} :
    s.loadExecutionLog k = .ok l ↔ s.executionLogs k = some l := by
  simp [loadExecutionLog]

@[simp] theorem loadTokenDist_eq_ok {k : Pubkey} {d : TokenDist} :
    s.loadTokenDist k = .ok d ↔ s.tokenDists k = some d := by
  simp [loadTokenDist]

@[simp] theorem loadMint_eq_ok {k : Pubkey} {m : Mint} :
    s.loadMint k = .ok m ↔ s.mints k = some m := by
  simp [loadMint]

@[simp] theorem loadTokenAccount_eq_ok {k : Pubkey} {account : TokenAccount} :
    s.loadTokenAccount k = .ok account ↔
      s.tokenAccounts k = some account ∧ account.program.isSome = true := by
  simp only [loadTokenAccount, Except.bind_eq_ok, okOr_eq_ok, require_eq_ok, Except.pure_eq_ok,
    exists_const]
  constructor
  · rintro ⟨a, ha, hp, rfl⟩
    exact ⟨ha, hp⟩
  · rintro ⟨ha, hp⟩
    exact ⟨account, ha, hp, rfl⟩

/-- A plan that loads through an optional account is the one at the vault's plan
    address. -/
theorem loadOptionalAssetPlan_some {vault : Pubkey} {key : Option Pubkey} {p : AssetPlan}
    (h : s.loadOptionalAssetPlan vault key = .ok (some p)) :
    s.assetPlans (.assetPlan vault) = some p := by
  cases key with
  | none => cases h
  | some k =>
      simp only [loadOptionalAssetPlan, Except.bind_eq_ok, loadAssetPlan_eq_ok, require_eq_ok,
        Except.pure_eq_ok, exists_const, Option.some.injEq] at h
      obtain ⟨_, hp, rfl, rfl⟩ := h
      exact hp

theorem transferLamports_eq_ok {source dest : Pubkey} {n : Nat} {purpose : Purpose}
    {short overflow : ProgramError} :
    s.transferLamports source dest n purpose short overflow = .ok s' ↔
      n ≤ s.lamports source ∧
      Function.update s.lamports source (s.lamports source - n) dest + n ≤ u64Max ∧
      s' = s.sendLamports source dest n purpose := by
  simp only [transferLamports, Except.bind_eq_ok, require_eq_ok, Except.pure_eq_ok, exists_const]
  rw [eq_comm (a := s')]

/-- What a successful `transfer_checked` has found and done. -/
theorem transferChecked_ok {program : TokenProgram} {source mint dest authority : Pubkey}
    {n decimals : Nat} {purpose : Purpose}
    (h : s.transferChecked c program source mint dest authority n decimals purpose = .ok s') :
    ∃ recipient, s.tokenAccounts source = some ⟨some (c.tokenProgram mint), mint, authority⟩ ∧
      s.tokenAccounts dest = some ⟨some (c.tokenProgram mint), mint, recipient⟩ ∧
      n ≤ s.tokenAmounts source ∧
      s' = s.sendTokens source mint dest recipient n purpose := by
  simp only [transferChecked, Except.bind_eq_ok, okOr_eq_ok, require_eq_ok, Except.pure_eq_ok,
    exists_const] at h
  obtain ⟨a, ha, b, hb, m, hm, ⟨hap, hbp, rfl⟩, ⟨ham, hbm⟩, hd, hao, hn, hfit, rfl⟩ := h
  refine ⟨b.owner, ?_, ?_, hn, rfl⟩
  · rw [ha, ← hap, ← ham, ← hao]
  · rw [hb, ← hbp, ← hbm]

theorem closeTokenAccount_ok {program : TokenProgram} {k dest authority : Pubkey}
    (h : s.closeTokenAccount program k dest authority = .ok s') :
    ∃ mint, s.tokenAccounts k = some ⟨some program, mint, authority⟩ ∧ s.tokenAmounts k = 0 ∧
      s' = (s.sendLamports k dest (s.lamports k) .refund).dropTokenAccount k := by
  simp only [closeTokenAccount, Except.bind_eq_ok, okOr_eq_ok, require_eq_ok, Except.pure_eq_ok,
    exists_const, transferLamports_eq_ok] at h
  obtain ⟨a, ha, hp, hz, ho, -, _, ⟨-, -, rfl⟩, rfl⟩ := h
  refine ⟨a.mint, ?_, hz, rfl⟩
  rw [ha, ← hp, ← ho]

end World

end DeadMansVault
