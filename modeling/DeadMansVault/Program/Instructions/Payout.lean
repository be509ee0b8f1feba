-- SUMMARY: The four permissionless payouts: specific bequests and pro-rata shares, of SOL and of tokens.
import DeadMansVault.Library.Trace
import DeadMansVault.Program.Gates

namespace DeadMansVault

open World

structure ExecuteSpecificAsset where
  payer : Pubkey
  vaultConfig : Pubkey
  executionLog : Pubkey
  assetPlan : Pubkey
  mint : Pubkey
  tokenDist : Pubkey
  vaultAta : Pubkey
  beneficiaryAta : Pubkey
  tokenProgram : TokenProgram

def executeSpecificAsset (c : Cluster) (ctx : ExecuteSpecificAsset) (assignmentIndex : Nat)
    (s : World) : Except ProgramError World := do
  requireSigner ctx.payer
  let vault ← s.loadVaultConfig ctx.vaultConfig
  let log ← s.loadExecutionLog ctx.executionLog
  let plan ← s.loadAssetPlan ctx.assetPlan
  let mint ← s.loadMint ctx.mint
  let dist ← s.loadTokenDist ctx.tokenDist
  let vaultAta ← s.loadTokenAccount ctx.vaultAta
  let beneficiaryAta ← s.loadTokenAccount ctx.beneficiaryAta
  requireSeeds ctx.vaultConfig (.vault vault.owner)
  requireSeeds ctx.executionLog (.execution ctx.vaultConfig)
  require (log.vault = ctx.vaultConfig) (.vault .heartbeatVaultMismatch)
  requireSeeds ctx.assetPlan (.assetPlan ctx.vaultConfig)
  require (plan.vault = ctx.vaultConfig) (.vault .assetPlanRequired)
  requireSeeds ctx.tokenDist (.tokenDist ctx.vaultConfig ctx.mint)
  require (dist.vault = ctx.vaultConfig) (.vault .mintMismatch)
  let a ← okOr plan.assignments[assignmentIndex]? (.vault .invalidBeneficiaryIndex)
  require (a.mint ≠ .default) (.vault .mintMismatch)
  let benef ← okOr vault.beneficiaries[a.beneficiaryIndex]? (.vault .invalidBeneficiaryIndex)
  require (beneficiaryAta.owner = benef.wallet) (.vault .beneficiaryMismatch)
  require (beneficiaryAta.mint = a.mint) (.vault .tokenAccountMismatch)
  require (ctx.mint = a.mint) (.vault .mintMismatch)
  require (vaultAta.owner = ctx.vaultConfig ∧ vaultAta.mint = a.mint)
    (.vault .tokenAccountMismatch)
  require (ctx.vaultAta = World.canonicalAta c ctx.vaultConfig ctx.mint) (.vault .invalidVaultAta)
  let lower := lowerIndexSameMintMask plan a.mint assignmentIndex
  require (plan.paidMask &&& lower = lower) (.vault .specificOutOfOrder)
  require (Bitmask.test plan.paidMask assignmentIndex = false) (.vault .maskAlreadySet)
  require (benef.wallet ≠ ctx.vaultConfig) (.vault .beneficiaryMismatch)
  let amt := min a.amount (s.tokenAmounts ctx.vaultAta)
  let s := s.putAssetPlan ctx.assetPlan (some { plan with
    paidMask := Bitmask.mark plan.paidMask assignmentIndex })
  s.transferPositive c ctx.tokenProgram ctx.vaultAta ctx.mint ctx.beneficiaryAta
    ctx.vaultConfig amt mint.decimals (.specificAsset assignmentIndex)

theorem executeSpecificAsset_ok {c : Cluster} {ctx : ExecuteSpecificAsset} {j : Nat} {s s' : World}
    (h : executeSpecificAsset c ctx j s = .ok s') :
    ∃ vault log plan dist a benef program, ctx.payer.canSign = true ∧
      Executing s ctx.vaultConfig vault log ∧
      s.assetPlans (.assetPlan ctx.vaultConfig) = some plan ∧
      s.tokenDists (.tokenDist ctx.vaultConfig ctx.mint) = some dist ∧
      (s.mints ctx.mint).isSome = true ∧
      plan.assignments[j]? = some a ∧ a.mint = ctx.mint ∧ a.mint ≠ .default ∧
      vault.beneficiaries[a.beneficiaryIndex]? = some benef ∧ benef.wallet ≠ ctx.vaultConfig ∧
      s.tokenAccounts ctx.beneficiaryAta = some ⟨program, a.mint, benef.wallet⟩ ∧
      plan.paidMask &&& lowerIndexSameMintMask plan a.mint j =
        lowerIndexSameMintMask plan a.mint j ∧
      Bitmask.test plan.paidMask j = false ∧
      (0 < min a.amount (s.tokenAmounts (canonicalAta c ctx.vaultConfig ctx.mint)) →
        s.tokenAccounts (canonicalAta c ctx.vaultConfig ctx.mint) =
          some ⟨some (c.tokenProgram ctx.mint), ctx.mint, ctx.vaultConfig⟩ ∧
        s.tokenAccounts ctx.beneficiaryAta =
          some ⟨some (c.tokenProgram ctx.mint), ctx.mint, benef.wallet⟩) ∧
      s' = (s.putAssetPlan (.assetPlan ctx.vaultConfig) (some { plan with
          paidMask := Bitmask.mark plan.paidMask j })).payTokens
        (canonicalAta c ctx.vaultConfig ctx.mint) ctx.mint ctx.beneficiaryAta benef.wallet
        (min a.amount (s.tokenAmounts (canonicalAta c ctx.vaultConfig ctx.mint)))
        (.specificAsset j) := by
  simp only [executeSpecificAsset, Except.bind_eq_ok, require_eq_ok, requireSigner_eq_ok,
    requireSeeds_eq_ok, loadVaultConfig_eq_ok, loadExecutionLog_eq_ok, loadAssetPlan_eq_ok,
    loadMint_eq_ok, loadTokenDist_eq_ok, loadTokenAccount_eq_ok, okOr_eq_ok, exists_const] at h
  obtain ⟨hsign, vault, hv, log, hl, plan, hp, mint, hmint, dist, hdist, vaultAta, -, benAta,
    ⟨hben, -⟩, hseeds, hlog, -, hplan, -, hdistKey, -, a, ha, hdefault, benef, hbenef, howner,
    hbenMint, hm, -, hata, horder, hclear, hself, h⟩ := h
  rw [hlog] at hl
  rw [hplan] at hp h
  rw [hdistKey] at hdist
  rw [hata] at h
  obtain ⟨-, rfl, hacc⟩ := transferPositive_ok (by simpa using hben) h
  have hbenAta : benAta = ⟨benAta.program, a.mint, benef.wallet⟩ := by rw [← howner, ← hbenMint]
  rw [hbenAta] at hben
  refine ⟨vault, log, plan, dist, a, benef, benAta.program, hsign, ⟨hv, hl, hseeds⟩, hp, hdist,
    by simp [hmint], ha, hm.symm, hdefault, hbenef, hself, hben, horder, hclear, ?_, by rw [howner]⟩
  intro hpos
  obtain ⟨hs, hd⟩ := hacc hpos
  have hprogram : benAta.program = some (c.tokenProgram ctx.mint) := by rw [hd]
  refine ⟨hs, ?_⟩
  rw [hben, hprogram, hm]

structure ExecuteSpecificSol where
  payer : Pubkey
  vaultConfig : Pubkey
  executionLog : Pubkey
  assetPlan : Pubkey
  beneficiary : Pubkey

def executeSpecificSol (c : Cluster) (ctx : ExecuteSpecificSol) (assignmentIndex : Nat)
    (s : World) : Except ProgramError World := do
  requireSigner ctx.payer
  let vault ← s.loadVaultConfig ctx.vaultConfig
  let log ← s.loadExecutionLog ctx.executionLog
  let plan ← s.loadAssetPlan ctx.assetPlan
  requireSeeds ctx.vaultConfig (.vault vault.owner)
  requireSeeds ctx.executionLog (.execution ctx.vaultConfig)
  require (log.vault = ctx.vaultConfig) (.vault .heartbeatVaultMismatch)
  requireSeeds ctx.assetPlan (.assetPlan ctx.vaultConfig)
  require (plan.vault = ctx.vaultConfig) (.vault .assetPlanRequired)
  let a ← okOr plan.assignments[assignmentIndex]? (.vault .invalidBeneficiaryIndex)
  require (a.mint = .default) (.vault .mintMismatch)
  let benef ← okOr vault.beneficiaries[a.beneficiaryIndex]? (.vault .invalidBeneficiaryIndex)
  require (ctx.beneficiary = benef.wallet) (.vault .beneficiaryMismatch)
  require (benef.wallet ≠ ctx.vaultConfig) (.vault .beneficiaryMismatch)
  let lower := lowerIndexSameMintMask plan .default assignmentIndex
  require (plan.paidMask &&& lower = lower) (.vault .specificOutOfOrder)
  require (Bitmask.test plan.paidMask assignmentIndex = false) (.vault .maskAlreadySet)
  let available := s.lamports ctx.vaultConfig - c.minimumBalance VaultConfig.space
  let amt := min a.amount available
  let s ← s.payPositive ctx.vaultConfig ctx.beneficiary amt (.specificSol assignmentIndex)
  pure (s.putAssetPlan ctx.assetPlan (some { plan with
    paidMask := Bitmask.mark plan.paidMask assignmentIndex }))

theorem executeSpecificSol_ok {c : Cluster} {ctx : ExecuteSpecificSol} {j : Nat} {s s' : World}
    (h : executeSpecificSol c ctx j s = .ok s') :
    ∃ vault log plan a benef, ctx.payer.canSign = true ∧
      Executing s ctx.vaultConfig vault log ∧
      s.assetPlans (.assetPlan ctx.vaultConfig) = some plan ∧
      plan.assignments[j]? = some a ∧ a.mint = .default ∧
      vault.beneficiaries[a.beneficiaryIndex]? = some benef ∧ benef.wallet ≠ ctx.vaultConfig ∧
      plan.paidMask &&& lowerIndexSameMintMask plan .default j =
        lowerIndexSameMintMask plan .default j ∧
      Bitmask.test plan.paidMask j = false ∧
      s' = (s.paySol ctx.vaultConfig benef.wallet
        (min a.amount (s.lamports ctx.vaultConfig - c.minimumBalance VaultConfig.space))
        (.specificSol j)).putAssetPlan (.assetPlan ctx.vaultConfig) (some { plan with
          paidMask := Bitmask.mark plan.paidMask j }) := by
  simp only [executeSpecificSol, Except.bind_eq_ok, require_eq_ok, requireSigner_eq_ok,
    requireSeeds_eq_ok, loadVaultConfig_eq_ok, loadExecutionLog_eq_ok, loadAssetPlan_eq_ok,
    okOr_eq_ok, Except.pure_eq_ok, exists_const] at h
  obtain ⟨hsign, vault, hv, log, hl, plan, hp, hseeds, hlog, -, hplan, -, a, ha, hm, benef, hbenef,
    hdest, hself, horder, hclear, s₁, hpay, rfl⟩ := h
  rw [hlog] at hl
  rw [hplan] at hp ⊢
  rw [hdest] at hpay
  obtain ⟨-, rfl⟩ := payPositive_ok hpay
  exact ⟨vault, log, plan, a, benef, hsign, ⟨hv, hl, hseeds⟩, hp, ha, hm, hbenef, hself, horder,
    hclear, rfl⟩

/-- A caller-supplied remaining account. -/
structure AccountMeta where
  key : Pubkey
  isWritable : Bool

structure ExecuteSolShares where
  payer : Pubkey
  vaultConfig : Pubkey
  executionLog : Pubkey
  remainingAccounts : List AccountMeta

/-- `(snapshot as u128 * share_bps as u128 / 10_000) as u64` -/
def shareAmount (snapshot shareBps : Nat) : Nat := asU64 (snapshot * shareBps / 10_000)

/-- One turn of the loop of `execute_sol_shares`. -/
def paySolShare (vaultKey logKey : Pubkey) (benefs : List Beneficiary) (snapshot : Nat)
    (s : World) (entry : Nat × AccountMeta) : Except ProgramError World := do
  let benef ← okOr benefs[entry.1]? (.vault .invalidBeneficiaryIndex)
  let log ← s.loadExecutionLog logKey
  -- An index that is already paid is skipped, whatever account comes with it.
  if Bitmask.test log.solPaidMask entry.1 = true then pure s else do
    require (entry.2.key = benef.wallet) (.vault .beneficiaryMismatch)
    require (entry.2.isWritable = true) (.vault .tokenAccountMismatch)
    let amt := shareAmount snapshot benef.shareBps
    if 0 < amt then do
      require (entry.2.key ≠ vaultKey) (.vault .beneficiaryMismatch)
      let s ← s.payLamports vaultKey entry.2.key amt (.solShare entry.1)
      pure (s.putExecutionLog logKey (some { log with
        totalSolDistributed := saturatingAdd u64Max log.totalSolDistributed amt
        transferCount := saturatingAdd u32Max log.transferCount 1
        solPaidMask := Bitmask.mark log.solPaidMask entry.1 }))
    else
      pure (s.putExecutionLog logKey (some { log with
        solPaidMask := Bitmask.mark log.solPaidMask entry.1 }))

/-- One turn skips a paid index or pays an unpaid one, and marks it. -/
theorem paySolShare_ok {vaultKey logKey : Pubkey} {benefs : List Beneficiary} {snapshot : Nat}
    {entry : Nat × AccountMeta} {s s' : World}
    (h : paySolShare vaultKey logKey benefs snapshot s entry = .ok s') :
    ∃ benef log, benefs[entry.1]? = some benef ∧ s.executionLogs logKey = some log ∧
      (Bitmask.test log.solPaidMask entry.1 = true ∧ s' = s ∨
       Bitmask.test log.solPaidMask entry.1 = false ∧
       (0 < shareAmount snapshot benef.shareBps → benef.wallet ≠ vaultKey) ∧
       shareAmount snapshot benef.shareBps ≤ s.lamports vaultKey ∧
       ∃ total count, s' = (s.paySol vaultKey benef.wallet (shareAmount snapshot benef.shareBps)
         (.solShare entry.1)).putExecutionLog logKey (some { log with
           totalSolDistributed := total
           transferCount := count
           solPaidMask := Bitmask.mark log.solPaidMask entry.1 })) := by
  simp only [paySolShare, Except.bind_eq_ok, okOr_eq_ok, loadExecutionLog_eq_ok] at h
  obtain ⟨benef, hbenef, log, hlog, h⟩ := h
  refine ⟨benef, log, hbenef, hlog, ?_⟩
  split at h
  · rename_i hset
    cases h
    exact .inl ⟨hset, rfl⟩
  · rename_i hclear
    simp only [Except.bind_eq_ok, require_eq_ok, exists_const] at h
    obtain ⟨hdest, -, h⟩ := h
    refine .inr ⟨by simpa using hclear, ?_⟩
    split at h
    · rename_i hpos
      simp only [Except.bind_eq_ok, require_eq_ok, exists_const, Except.pure_eq_ok] at h
      obtain ⟨hself, s₁, hpay, rfl⟩ := h
      rw [hdest] at hself hpay
      have hpay' : s.payPositive vaultKey benef.wallet (shareAmount snapshot benef.shareBps)
          (.solShare entry.1) = .ok s₁ := by rw [payPositive, if_pos hpos, hpay]
      obtain ⟨hn, rfl⟩ := payPositive_ok hpay'
      exact ⟨fun _ => hself, hn, _, _, rfl⟩
    · rename_i hzero
      cases h
      have hamt : shareAmount snapshot benef.shareBps = 0 := by omega
      refine ⟨fun hpos => absurd hpos hzero, by omega, log.totalSolDistributed, log.transferCount, ?_⟩
      simp [hamt, paySol, putExecutionLog, Movement.made]

def executeSolShares (ctx : ExecuteSolShares) (indices : List Nat) (s : World) :
    Except ProgramError World := do
  requireSigner ctx.payer
  let vault ← s.loadVaultConfig ctx.vaultConfig
  let log ← s.loadExecutionLog ctx.executionLog
  requireSeeds ctx.vaultConfig (.vault vault.owner)
  require (vault.executed = false) (.vault .vaultAlreadyExecuted)
  requireSeeds ctx.executionLog (.execution ctx.vaultConfig)
  require (log.vault = ctx.vaultConfig) (.vault .heartbeatVaultMismatch)
  require (indices.length = ctx.remainingAccounts.length) (.vault .accountCountMismatch)
  (indices.zip ctx.remainingAccounts).foldlM
    (paySolShare ctx.vaultConfig ctx.executionLog vault.beneficiaries log.solSnapshot) s

theorem executeSolShares_ok {ctx : ExecuteSolShares} {indices : List Nat} {s s' : World}
    (h : executeSolShares ctx indices s = .ok s') :
    ∃ vault log, ctx.payer.canSign = true ∧ Executing s ctx.vaultConfig vault log ∧
      vault.executed = false ∧
      Trace (fun s entry s' => paySolShare ctx.vaultConfig (.execution ctx.vaultConfig)
        vault.beneficiaries log.solSnapshot s entry = .ok s') s
        (indices.zip ctx.remainingAccounts) s' := by
  simp only [executeSolShares, Except.bind_eq_ok, require_eq_ok, requireSigner_eq_ok,
    requireSeeds_eq_ok, loadVaultConfig_eq_ok, loadExecutionLog_eq_ok, exists_const] at h
  obtain ⟨hsign, vault, hv, log, hl, hseeds, hexec, hlog, -, -, h⟩ := h
  rw [hlog] at hl h
  exact ⟨vault, log, hsign, ⟨hv, hl, hseeds⟩, hexec, foldlM_eq_ok.mp h⟩

structure ExecuteTokenShares where
  payer : Pubkey
  vaultConfig : Pubkey
  tokenDist : Pubkey
  mint : Pubkey
  vaultAta : Pubkey
  tokenProgram : TokenProgram
  remainingAccounts : List AccountMeta

/-- One turn of the loop of `execute_token_shares`. The destination is
    deserialised without asking which program owns it. -/
def payTokenShare (c : Cluster) (ctx : ExecuteTokenShares) (benefs : List Beneficiary)
    (snapshot decimals : Nat) (s : World) (entry : Nat × AccountMeta) :
    Except ProgramError World := do
  let benef ← okOr benefs[entry.1]? (.vault .invalidBeneficiaryIndex)
  let dist ← s.loadTokenDist ctx.tokenDist
  if Bitmask.test dist.paidMask entry.1 = true then pure s else do
    require (entry.2.isWritable = true) (.vault .tokenAccountMismatch)
    let benAta ← okOr (s.tokenAccounts entry.2.key) (.anchor .accountNotInitialized)
    require (benAta.owner = benef.wallet ∧ benAta.mint = ctx.mint) (.vault .tokenAccountMismatch)
    let amt := shareAmount snapshot benef.shareBps
    let s := s.putTokenDist ctx.tokenDist (some { dist with
      paidMask := Bitmask.mark dist.paidMask entry.1 })
    s.transferPositive c ctx.tokenProgram ctx.vaultAta ctx.mint entry.2.key ctx.vaultConfig amt
      decimals (.tokenShare entry.1)

theorem payTokenShare_ok {c : Cluster} {ctx : ExecuteTokenShares} {benefs : List Beneficiary}
    {snapshot decimals : Nat} {entry : Nat × AccountMeta} {s s' : World}
    (h : payTokenShare c ctx benefs snapshot decimals s entry = .ok s') :
    ∃ benef dist, benefs[entry.1]? = some benef ∧ s.tokenDists ctx.tokenDist = some dist ∧
      (Bitmask.test dist.paidMask entry.1 = true ∧ s' = s ∨
       Bitmask.test dist.paidMask entry.1 = false ∧ ∃ program,
       s.tokenAccounts entry.2.key = some ⟨program, ctx.mint, benef.wallet⟩ ∧
       shareAmount snapshot benef.shareBps ≤ s.tokenAmounts ctx.vaultAta ∧
       (0 < shareAmount snapshot benef.shareBps →
         s.tokenAccounts ctx.vaultAta =
           some ⟨some (c.tokenProgram ctx.mint), ctx.mint, ctx.vaultConfig⟩ ∧
         program = some (c.tokenProgram ctx.mint)) ∧
       s' = (s.putTokenDist ctx.tokenDist (some { dist with
           paidMask := Bitmask.mark dist.paidMask entry.1 })).payTokens ctx.vaultAta ctx.mint
         entry.2.key benef.wallet (shareAmount snapshot benef.shareBps)
         (.tokenShare entry.1)) := by
  simp only [payTokenShare, Except.bind_eq_ok, okOr_eq_ok, loadTokenDist_eq_ok] at h
  obtain ⟨benef, hbenef, dist, hdist, h⟩ := h
  refine ⟨benef, dist, hbenef, hdist, ?_⟩
  split at h
  · rename_i hset
    cases h
    exact .inl ⟨hset, rfl⟩
  · rename_i hclear
    simp only [Except.bind_eq_ok, require_eq_ok, okOr_eq_ok, exists_const] at h
    obtain ⟨-, account, hacc, ⟨howner, hmint⟩, h⟩ := h
    obtain ⟨hn, rfl, hmatch⟩ := transferPositive_ok (by simpa using hacc) h
    refine .inr ⟨by simpa using hclear, account.program, ?_, hn, ?_, by rw [howner]⟩
    · rw [hacc, ← howner, ← hmint]
    · intro hpos
      obtain ⟨hs, hd⟩ := hmatch hpos
      exact ⟨hs, by rw [hd]⟩

def executeTokenShares (c : Cluster) (ctx : ExecuteTokenShares) (indices : List Nat)
    (s : World) : Except ProgramError World := do
  requireSigner ctx.payer
  let vault ← s.loadVaultConfig ctx.vaultConfig
  let dist ← s.loadTokenDist ctx.tokenDist
  let mint ← s.loadMint ctx.mint
  let vaultAta ← s.loadTokenAccount ctx.vaultAta
  requireSeeds ctx.vaultConfig (.vault vault.owner)
  requireSeeds ctx.tokenDist (.tokenDist ctx.vaultConfig ctx.mint)
  require (dist.vault = ctx.vaultConfig) (.vault .mintMismatch)
  require (vaultAta.owner = ctx.vaultConfig) (.vault .tokenAccountMismatch)
  require (vaultAta.mint = ctx.mint) (.vault .tokenAccountMismatch)
  require (indices.length = ctx.remainingAccounts.length) (.vault .accountCountMismatch)
  require (ctx.vaultAta = World.canonicalAta c ctx.vaultConfig ctx.mint) (.vault .invalidVaultAta)
  (indices.zip ctx.remainingAccounts).foldlM
    (payTokenShare c ctx vault.beneficiaries dist.snapshot mint.decimals) s

theorem executeTokenShares_ok {c : Cluster} {ctx : ExecuteTokenShares} {indices : List Nat}
    {s s' : World} (h : executeTokenShares c ctx indices s = .ok s') :
    ∃ vault dist decimals, ctx.payer.canSign = true ∧ s.vaultConfigs ctx.vaultConfig = some vault ∧
      ctx.vaultConfig = .vault vault.owner ∧
      ctx.tokenDist = .tokenDist ctx.vaultConfig ctx.mint ∧
      ctx.vaultAta = canonicalAta c ctx.vaultConfig ctx.mint ∧
      s.tokenDists (.tokenDist ctx.vaultConfig ctx.mint) = some dist ∧
      Trace (fun s entry s' => payTokenShare c ctx vault.beneficiaries dist.snapshot decimals s
        entry = .ok s') s (indices.zip ctx.remainingAccounts) s' := by
  simp only [executeTokenShares, Except.bind_eq_ok, require_eq_ok, requireSigner_eq_ok,
    requireSeeds_eq_ok, loadVaultConfig_eq_ok, loadTokenDist_eq_ok, exists_const] at h
  obtain ⟨hsign, vault, hv, dist, hd, mint, -, vaultAta, -, hseeds, hkey, -, -, -, -, hata, h⟩ := h
  rw [hkey] at hd
  exact ⟨vault, dist, mint.decimals, hsign, hv, hseeds, hkey, hata, hd, foldlM_eq_ok.mp h⟩

end DeadMansVault
