-- SUMMARY: What suffices for the instructions of an execution to be accepted.
import DeadMansVault.Program.Footprint

/-!
# Progress

The inversion lemmas of the handlers say what an accepted instruction has found.
Here is the other direction: from what a vault, its log and its plan say, and with
the accounts derived from them, a permissionless instruction goes through.
-/

namespace DeadMansVault

open World

variable {c : Cluster} {s s' : World} {payer vaultKey : Pubkey} {v : VaultConfig}

/-- The plan account that goes with a config. -/
def VaultConfig.planKey (v : VaultConfig) (vaultKey : Pubkey) : Option Pubkey :=
  if v.hasAssetPlan then some (.assetPlan vaultKey) else none

/-- The plan that a config announces exists and is pinned to its vault. -/
def PlanLoads (s : World) (vaultKey : Pubkey) (v : VaultConfig) : Prop :=
  v.hasAssetPlan = true → ∃ p, s.assetPlans (.assetPlan vaultKey) = some p ∧ p.vault = vaultKey

theorem PlanLoads.load (h : PlanLoads s vaultKey v) :
    s.loadOptionalAssetPlan vaultKey (v.planKey vaultKey) = .ok (s.registeredPlan vaultKey v) ∧
      ∀ p, s.registeredPlan vaultKey v = some p → p.vault = vaultKey := by
  unfold VaultConfig.planKey World.registeredPlan
  split
  · rename_i hhas
    obtain ⟨p, hp, hpin⟩ := h hhas
    refine ⟨?_, fun p' hp' => ?_⟩
    · simp only [loadOptionalAssetPlan, Except.bind_eq_ok, loadAssetPlan_eq_ok, require_eq_ok,
        Except.pure_eq_ok, exists_const]
      exact ⟨p, hp, trivial, hp.symm⟩
    · obtain rfl := Option.some.inj (hp.symm.trans hp')
      exact hpin
  · exact ⟨rfl, nofun⟩

/-- The rent that an address still lacks. -/
def World.rentDue (c : Cluster) (s : World) (k : Pubkey) (space : Nat) : Nat :=
  if s.lamports k = 0 then c.minimumBalance space
  else max (c.minimumBalance space) 1 - s.lamports k

theorem rentDue_le (k : Pubkey) (space : Nat) :
    s.rentDue c k space ≤ max (c.minimumBalance space) 1 := by
  unfold World.rentDue
  split <;> omega

/-- A payer with that many lamports funds a new account. -/
theorem fundRent_exact (hs : s.Regular c) {k : Pubkey} {space : Nat}
    (hfunds : s.rentDue c k space ≤ s.lamports payer) :
    s.fundRent c payer k space = .ok (s.sendLamports payer k (s.rentDue c k space) .rent) :=
  transferLamports_eq_ok.mpr ⟨hfunds, hs.lamports_fit hfunds, rfl⟩

theorem fundRent_progress (hs : s.Regular c) {k : Pubkey} {space : Nat}
    (hfunds : max (c.minimumBalance space) 1 ≤ s.lamports payer) :
    ∃ n, n ≤ max (c.minimumBalance space) 1 ∧
      s.fundRent c payer k space = .ok (s.sendLamports payer k n .rent) :=
  ⟨_, rentDue_le k space, fundRent_exact hs ((rentDue_le k space).trans hfunds)⟩

/-- What a payer holds before and after it has funded a derived account. -/
theorem sendLamports_payer_exact {k : Pubkey} (hsign : payer.canSign = true) {n : Nat}
    (hk : k.canSign = false) (hn : n ≤ s.lamports payer) :
    s.lamports payer = (s.sendLamports payer k n .rent).lamports payer + n := by
  have hne : payer ≠ k := by
    rintro rfl
    exact absurd (hk.symm.trans hsign) Bool.false_ne_true
  rw [sendLamports_lamports, Ledger.move_source hne]
  omega

/-- A payer has paid the rent of a derived account, and no more. -/
theorem sendLamports_payer {k : Pubkey} (hsign : payer.canSign = true) (n : Nat)
    (hk : k.canSign = false) :
    s.lamports payer ≤ (s.sendLamports payer k n .rent).lamports payer + n := by
  have hne : payer ≠ k := by
    rintro rfl
    exact absurd (hk.symm.trans hsign) Bool.false_ne_true
  rw [sendLamports_lamports, Ledger.move_source hne]
  omega

/-- A payment of lamports that the source holds goes through. -/
theorem payPositive_progress (hs : s.Regular c) (source dest : Pubkey) {n : Nat}
    (purpose : Purpose) (hn : n ≤ s.lamports source) :
    s.payPositive source dest n purpose = .ok (s.paySol source dest n purpose) := by
  rw [paySol_eq]
  unfold payPositive
  split
  · exact payLamports_eq_ok.mpr ⟨hn, hs.lamports_fit hn, rfl⟩
  · rfl

/-- So does a payment of tokens between two accounts of the mint. -/
theorem transferPositive_progress (hs : s.Regular c) {source dest mint authority recipient : Pubkey}
    {n : Nat} (purpose : Purpose) {m : Mint} (hm : s.mints mint = some m)
    (hsource : s.tokenAccounts source = some ⟨some (c.tokenProgram mint), mint, authority⟩)
    (hdest : s.tokenAccounts dest = some ⟨some (c.tokenProgram mint), mint, recipient⟩)
    (hn : n ≤ s.tokenAmounts source) :
    s.transferPositive c (c.tokenProgram mint) source mint dest authority n m.decimals purpose =
      .ok (s.payTokens source mint dest recipient n purpose) := by
  rw [payTokens_eq]
  unfold transferPositive
  split
  · have hfit := hs.tokens_fit hsource hdest hn
    simp [transferChecked, okOr, require, hm, hsource, hdest, hn, hfit, bind, Except.bind, pure,
      Except.pure]
  · rfl

/-- So does what an account holds when it is closed. -/
theorem refundLamports_progress {k dest : Pubkey} (h : Ledger.Bounded s.lamports u64Max) :
    s.refundLamports k dest = .ok (s.sendLamports k dest (s.lamports k) .refund) := by
  have hfit := h.credit_le (a := k) (b := dest) le_rfl
  rw [Nat.sub_self] at hfit
  exact refundLamports_eq_ok.mpr ⟨hfit, rfl⟩

/-- An empty token account can be closed. -/
theorem closeTokenAccount_progress {k authority mint : Pubkey} {program : TokenProgram}
    (dest : Pubkey) (hzero : s.tokenAmounts k = 0) (hfees : s.withheldFees k = 0)
    (h : Ledger.Bounded s.lamports u64Max)
    (hacc : s.tokenAccounts k = some ⟨some program, mint, authority⟩) :
    s.closeTokenAccount program k dest authority =
      .ok ((s.sendLamports k dest (s.lamports k) .refund).dropTokenAccount k) := by
  simp only [closeTokenAccount, Except.bind_eq_ok, okOr_eq_ok, require_eq_ok, Except.pure_eq_ok,
    exists_const, transferLamports_eq_ok]
  exact ⟨_, hacc, rfl, hzero, rfl, hfees, _, ⟨le_rfl, h.credit_le le_rfl, rfl⟩, rfl⟩

/-! ## The instructions of an execution -/

theorem beginExecution_progress (hs : s.Regular c) {h : HeartbeatRecord}
    (hsign : payer.canSign = true) (hv : s.vaultConfigs vaultKey = some v)
    (hh : s.heartbeatRecords (.heartbeat vaultKey) = some h) (hpin : h.vault = vaultKey)
    (hseeds : vaultKey = .vault v.owner) (hexec : v.executed = false)
    (hnone : s.executionLogs (.execution vaultKey) = none) (hplan : PlanLoads s vaultKey v)
    (hacc : v.Accepted c) (hmin : i64Min ≤ h.lastHeartbeat) (hdue : v.deadlineAt h ≤ s.now)
    (hfunds : max (c.minimumBalance ExecutionLog.space) 1 ≤ s.lamports payer) :
    ∃ s', beginExecution c ⟨payer, vaultKey, .heartbeat vaultKey, .execution vaultKey,
      v.planKey vaultKey⟩ s = .ok s' ∧
      s.lamports payer ≤ s'.lamports payer + max (c.minimumBalance ExecutionLog.space) 1 := by
  obtain ⟨n, hn, hfund⟩ := fundRent_progress hs (k := .execution vaultKey) hfunds
  have hdl : deadline h.lastHeartbeat v.heartbeatInterval v.gracePeriod = .ok (v.deadlineAt h) := by
    have hi := hacc.intervalRange.1
    have hg := hacc.graceRange.1
    have hpos : 0 ≤ minHeartbeatInterval c.devnet ∧ 0 ≤ minGracePeriod c.devnet := by
      unfold minHeartbeatInterval minGracePeriod
      cases c.devnet <;> decide
    exact deadline_ok hmin (hpos.1.trans hi) (hpos.2.trans hg) (hdue.trans hs.clock.2)
  have hsum : ∃ sum, registeredSpecificSol v (s.registeredPlan vaultKey v) vaultKey = .ok sum := by
    unfold registeredSpecificSol
    split
    · rename_i hhas
      obtain ⟨p, hp, hpin⟩ := hplan hhas
      simp [World.registeredPlan, hhas, hp, hpin, okOr, require, bind, Except.bind, pure,
        Except.pure]
    · exact ⟨0, rfl⟩
  obtain ⟨sum, hsum⟩ := hsum
  obtain ⟨hload, -⟩ := hplan.load
  have hpaid := sendLamports_payer (s := s) (k := .execution vaultKey) hsign n rfl
  simp only [beginExecution, Except.bind_eq_ok, require_eq_ok, requireSigner_eq_ok,
    requireSeeds_eq_ok, loadVaultConfig_eq_ok, loadHeartbeatRecord_eq_ok, Except.pure_eq_ok,
    exists_const]
  exact ⟨_, ⟨hsign, v, hv, h, hh, trivial, hnone, _, hfund, _, hload, hseeds, hexec, trivial, hpin, _,
    hdl, decide_eq_true hdue, sum, hsum, rfl⟩, hpaid.trans (Nat.add_le_add_left hn _)⟩

variable {l : ExecutionLog} {m : Pubkey}

/-- The call of `begin_token_dist` with the accounts of the vault. -/
def distCall (c : Cluster) (payer vaultKey m : Pubkey) (v : VaultConfig) : BeginTokenDist :=
  ⟨payer, vaultKey, .execution vaultKey, m, canonicalAta c vaultKey m, v.planKey vaultKey,
    .tokenDist vaultKey m⟩

/-- A distribution is begun at the rent that its address lacks. -/
theorem beginTokenDist_exact (hs : s.Regular c) (hsign : payer.canSign = true)
    (hgate : Executing s vaultKey v l) (hpin : l.vault = vaultKey) (hplan : PlanLoads s vaultKey v)
    (hmint : (s.mints m).isSome = true) (hnone : s.tokenDists (.tokenDist vaultKey m) = none)
    (hwhy : 0 < s.tokenAmounts (canonicalAta c vaultKey m) ∨
      ∃ p, s.registeredPlan vaultKey v = some p ∧ ∃ a ∈ p.assignments, a.mint = m)
    (hfunds : s.rentDue c (.tokenDist vaultKey m) TokenDist.space ≤ s.lamports payer) :
    ∃ s', beginTokenDist c (distCall c payer vaultKey m v) s = .ok s' ∧
      s.lamports payer =
        s'.lamports payer + s.rentDue c (.tokenDist vaultKey m) TokenDist.space := by
  obtain ⟨m', hm'⟩ := Option.isSome_iff_exists.mp hmint
  have hfund := fundRent_exact hs hfunds
  obtain ⟨hload, hpinned⟩ := hplan.load
  -- The balance, and the bequests of the mint with the plan that names it.
  have hbal : readVaultAta s (canonicalAta c vaultKey m) m vaultKey =
      .ok (s.tokenAmounts (canonicalAta c vaultKey m)) := by
    unfold readVaultAta
    cases hacc : s.tokenAccounts (canonicalAta c vaultKey m) with
    | none =>
        rw [hs.vacant _ hacc]
        rfl
    | some account =>
        have hkey := hgate.seeds
        rw [hkey] at hacc
        rw [hs.vaultAtas _ _ _ _ hacc, hkey]
        simp [require, bind, Except.bind, pure, Except.pure]
  have hsum : ∃ sum found, registeredSpecific v (s.registeredPlan vaultKey v) vaultKey m =
      .ok (sum, found) ∧ (0 < s.tokenAmounts (canonicalAta c vaultKey m) ∨ found = true) := by
    unfold registeredSpecific
    split
    · rename_i hhas
      obtain ⟨p, hp, hpin⟩ := hplan hhas
      have hreg : s.registeredPlan vaultKey v = some p := by simp [World.registeredPlan, hhas, hp]
      refine ⟨sumSpecific p.assignments m, p.assignments.any (·.mint = m), ?_, ?_⟩
      · simp [hreg, hpin, okOr, require, bind, Except.bind, pure, Except.pure]
      · refine hwhy.imp_right ?_
        rintro ⟨p', hp', a, ha, hm⟩
        obtain rfl := Option.some.inj (hreg.symm.trans hp')
        exact List.any_eq_true.mpr ⟨a, ha, by simp [hm]⟩
    · rename_i hhas
      refine ⟨0, false, rfl, hwhy.imp_right ?_⟩
      rintro ⟨p, hp, -⟩
      simp [World.registeredPlan, hhas] at hp
  obtain ⟨sum, found, hsum, hopen⟩ := hsum
  have hpaid := sendLamports_payer_exact (k := .tokenDist vaultKey m) hsign rfl hfunds
  simp only [beginTokenDist, Except.bind_eq_ok, require_eq_ok, requireSigner_eq_ok,
    requireSeeds_eq_ok, loadVaultConfig_eq_ok, loadExecutionLog_eq_ok, loadMint_eq_ok,
    Except.pure_eq_ok, exists_const]
  exact ⟨_, ⟨hsign, v, hgate.config, l, hgate.log, m', hm', _, hload, rfl, hnone, _, hfund,
    hgate.seeds, rfl, hpin, rfl, _, hbal, (sum, found), hsum, hopen, rfl⟩, hpaid⟩

theorem beginTokenDist_progress (hs : s.Regular c) (hsign : payer.canSign = true)
    (hgate : Executing s vaultKey v l) (hpin : l.vault = vaultKey) (hplan : PlanLoads s vaultKey v)
    (hmint : (s.mints m).isSome = true) (hnone : s.tokenDists (.tokenDist vaultKey m) = none)
    (hwhy : 0 < s.tokenAmounts (canonicalAta c vaultKey m) ∨
      ∃ p, s.registeredPlan vaultKey v = some p ∧ ∃ a ∈ p.assignments, a.mint = m)
    (hfunds : max (c.minimumBalance TokenDist.space) 1 ≤ s.lamports payer) :
    ∃ s', beginTokenDist c (distCall c payer vaultKey m v) s = .ok s' ∧
      s.lamports payer ≤ s'.lamports payer + max (c.minimumBalance TokenDist.space) 1 := by
  obtain ⟨s', hexec, hpaid⟩ := beginTokenDist_exact hs hsign hgate hpin hplan hmint hnone hwhy
    ((rentDue_le _ _).trans hfunds)
  exact ⟨s', hexec, hpaid.le.trans (Nat.add_le_add_left (rentDue_le _ _) _)⟩

/-- A distribution is begun from the canonical account, by a payer who has the rent. -/
theorem beginTokenDist_needs {ctx : BeginTokenDist} (h : beginTokenDist c ctx s = .ok s') :
    ctx.vaultAta = canonicalAta c ctx.vaultConfig ctx.mint ∧
      s.rentDue c (.tokenDist ctx.vaultConfig ctx.mint) TokenDist.space ≤ s.lamports ctx.payer := by
  simp only [beginTokenDist, Except.bind_eq_ok, require_eq_ok, requireSigner_eq_ok,
    requireSeeds_eq_ok, loadVaultConfig_eq_ok, loadExecutionLog_eq_ok, loadMint_eq_ok,
    Except.pure_eq_ok, exists_const] at h
  obtain ⟨-, _, -, _, -, _, -, _, -, hdist, -, _, hfund, -, -, -, hata, -⟩ := h
  rw [hdist] at hfund
  exact ⟨hata, (transferLamports_eq_ok.mp hfund).1⟩

theorem executeSpecificSol_progress (hs : s.Regular c) {p : AssetPlan} {j : Nat}
    {a : AssetAssignment} {b : Beneficiary} (hsign : payer.canSign = true)
    (hgate : Executing s vaultKey v l) (hpin : l.vault = vaultKey)
    (hp : s.assetPlans (.assetPlan vaultKey) = some p) (hpinned : p.vault = vaultKey)
    (ha : p.assignments[j]? = some a) (hm : a.mint = .default)
    (hb : v.beneficiaries[a.beneficiaryIndex]? = some b) (hself : b.wallet ≠ vaultKey)
    (horder : p.paidMask &&& lowerIndexSameMintMask p .default j =
      lowerIndexSameMintMask p .default j)
    (hclear : Bitmask.test p.paidMask j = false) :
    ∃ s', executeSpecificSol c ⟨payer, vaultKey, .execution vaultKey, .assetPlan vaultKey,
      b.wallet⟩ j s = .ok s' := by
  have hpay := payPositive_progress hs vaultKey b.wallet (.specificSol j)
    (Nat.min_le_right a.amount _ |>.trans (Nat.sub_le _ (c.minimumBalance VaultConfig.space)))
  simp only [executeSpecificSol, Except.bind_eq_ok, require_eq_ok, requireSigner_eq_ok,
    requireSeeds_eq_ok, loadVaultConfig_eq_ok, loadExecutionLog_eq_ok, loadAssetPlan_eq_ok,
    okOr_eq_ok, Except.pure_eq_ok, exists_const]
  exact ⟨_, hsign, v, hgate.config, l, hgate.log, p, hp, hgate.seeds, trivial, hpin, trivial, hpinned,
    a, ha, hm, b, hb, rfl, hself, horder, hclear, _, hpay, rfl⟩

theorem executeSpecificAsset_progress (hs : s.Regular c) {p : AssetPlan} {d : TokenDist} {j : Nat}
    {a : AssetAssignment} {b : Beneficiary} {dest : Pubkey} (hsign : payer.canSign = true)
    (hgate : Executing s vaultKey v l) (hpin : l.vault = vaultKey)
    (hp : s.assetPlans (.assetPlan vaultKey) = some p) (hpinned : p.vault = vaultKey)
    (hd : s.tokenDists (.tokenDist vaultKey a.mint) = some d) (hheld : d.vault = vaultKey)
    (hmint : (s.mints a.mint).isSome = true) (ha : p.assignments[j]? = some a)
    (hm : a.mint ≠ .default) (hb : v.beneficiaries[a.beneficiaryIndex]? = some b)
    (hself : b.wallet ≠ vaultKey)
    (hata : s.tokenAccounts (canonicalAta c vaultKey a.mint) =
      some ⟨some (c.tokenProgram a.mint), a.mint, vaultKey⟩)
    (hdest : s.tokenAccounts dest = some ⟨some (c.tokenProgram a.mint), a.mint, b.wallet⟩)
    (horder : p.paidMask &&& lowerIndexSameMintMask p a.mint j =
      lowerIndexSameMintMask p a.mint j)
    (hclear : Bitmask.test p.paidMask j = false) :
    ∃ s', executeSpecificAsset c ⟨payer, vaultKey, .execution vaultKey, .assetPlan vaultKey,
      a.mint, .tokenDist vaultKey a.mint, canonicalAta c vaultKey a.mint, dest,
      c.tokenProgram a.mint⟩ j s = .ok s' := by
  obtain ⟨m', hm'⟩ := Option.isSome_iff_exists.mp hmint
  have hpay := transferPositive_progress (hs.putAssetPlan (.assetPlan vaultKey)
    (some { p with paidMask := Bitmask.mark p.paidMask j })) (.specificAsset j) hm' hata
    hdest (Nat.min_le_right a.amount _)
  simp only [executeSpecificAsset, Except.bind_eq_ok, require_eq_ok, requireSigner_eq_ok,
    requireSeeds_eq_ok, loadVaultConfig_eq_ok, loadExecutionLog_eq_ok, loadAssetPlan_eq_ok,
    loadMint_eq_ok, loadTokenDist_eq_ok, loadTokenAccount_eq_ok, okOr_eq_ok, exists_const]
  exact ⟨_, hsign, v, hgate.config, l, hgate.log, p, hp, m', hm', d, hd, _, ⟨hata, rfl⟩, _,
    ⟨hdest, rfl⟩, hgate.seeds, trivial, hpin, trivial, hpinned, trivial, hheld, a, ha, hm, b, hb, rfl,
    rfl, rfl, ⟨rfl, rfl⟩, trivial, horder, hclear, hself, hpay⟩

/-- The turn of an unpaid share. -/
theorem paySolShare_progress (hs : s.Regular c) {i : Nat} {b : Beneficiary}
    (hl : s.executionLogs (.execution vaultKey) = some l) (hb : v.beneficiaries[i]? = some b)
    (hclear : Bitmask.test l.solPaidMask i = false)
    (hself : 0 < shareAmount l.solSnapshot b.shareBps → b.wallet ≠ vaultKey)
    (hn : shareAmount l.solSnapshot b.shareBps ≤ s.lamports vaultKey) :
    ∃ s', paySolShare vaultKey (.execution vaultKey) v.beneficiaries l.solSnapshot s
      (i, ⟨b.wallet, true⟩) = .ok s' := by
  have hset : ¬ Bitmask.test l.solPaidMask i = true := by simp [hclear]
  have hlog : s.loadExecutionLog (.execution vaultKey) = .ok l := by simp [hl]
  by_cases hpos : 0 < shareAmount l.solSnapshot b.shareBps
  · have hpay : s.payLamports vaultKey b.wallet (shareAmount l.solSnapshot b.shareBps)
        (.solShare i) = .ok _ := payLamports_eq_ok.mpr ⟨hn, hs.lamports_fit hn, rfl⟩
    simp [paySolShare, okOr, require, hb, hlog, hset, hpos, hself hpos, hpay, bind, Except.bind,
      pure, Except.pure]
  · simp [paySolShare, okOr, require, hb, hlog, hset, hpos, bind, Except.bind, pure, Except.pure]

/-- A batch goes through if its turns do. -/
theorem executeSolShares_of_turns (hsign : payer.canSign = true)
    (hgate : Executing s vaultKey v l) (hexec : v.executed = false) (hpin : l.vault = vaultKey)
    {accounts : List AccountMeta} {part : List Nat} (hlen : part.length = accounts.length)
    (hturns : Trace (fun t entry t' => paySolShare vaultKey (.execution vaultKey) v.beneficiaries
      l.solSnapshot t entry = .ok t') s (part.zip accounts) s') :
    executeSolShares ⟨payer, vaultKey, .execution vaultKey, accounts⟩ part s = .ok s' := by
  simp only [executeSolShares, Except.bind_eq_ok, require_eq_ok, requireSigner_eq_ok,
    requireSeeds_eq_ok, loadVaultConfig_eq_ok, loadExecutionLog_eq_ok, exists_const]
  exact ⟨hsign, v, hgate.config, l, hgate.log, hgate.seeds, hexec, trivial, hpin, hlen,
    foldlM_eq_ok.mpr hturns⟩

/-- One unpaid share at a time. -/
theorem executeSolShares_progress (hs : s.Regular c) {i : Nat} {b : Beneficiary}
    (hsign : payer.canSign = true) (hgate : Executing s vaultKey v l) (hexec : v.executed = false)
    (hpin : l.vault = vaultKey) (hb : v.beneficiaries[i]? = some b)
    (hclear : Bitmask.test l.solPaidMask i = false)
    (hself : 0 < shareAmount l.solSnapshot b.shareBps → b.wallet ≠ vaultKey)
    (hn : shareAmount l.solSnapshot b.shareBps ≤ s.lamports vaultKey) :
    ∃ s', executeSolShares ⟨payer, vaultKey, .execution vaultKey, [⟨b.wallet, true⟩]⟩ [i] s =
      .ok s' := by
  obtain ⟨s', hturn⟩ := paySolShare_progress hs hgate.log hb hclear hself hn
  exact ⟨s', executeSolShares_of_turns hsign hgate hexec hpin rfl (.single hturn)⟩

theorem finalizeExecution_progress (hs : s.Regular c) (hsign : payer.canSign = true)
    (hgate : Executing s vaultKey v l) (hexec : v.executed = false) (hpin : l.vault = vaultKey)
    (hplan : PlanLoads s vaultKey v) (hshares : l.solPaidMask = fullMaskU32 v.beneficiaries.length)
    (hpaid : ∀ p, s.registeredPlan vaultKey v = some p →
      p.paidMask = fullMaskU64 p.assignments.length) :
    ∃ s', finalizeExecution c ⟨payer, vaultKey, .execution vaultKey, v.planKey vaultKey⟩ s =
      .ok s' := by
  obtain ⟨hload, hpinned⟩ := hplan.load
  have hcheck : requirePlanPaid v (s.registeredPlan vaultKey v) vaultKey = .ok () := by
    unfold requirePlanPaid
    split
    · rename_i hhas
      obtain ⟨p, hp, -⟩ := hplan hhas
      have hreg : s.registeredPlan vaultKey v = some p := by simp [World.registeredPlan, hhas, hp]
      simp [hreg, hpinned p hreg, hpaid p hreg, okOr, require, bind, Except.bind]
    · rfl
  have hpay := payPositive_progress ((hs.putVaultConfig vaultKey (some { v with
      executed := true, active := false })).putExecutionLog (.execution vaultKey)
      (some { l with completed := true })) vaultKey payer .bounty
    (Nat.min_le_right v.keeperBounty _ |>.trans
      (Nat.sub_le _ (c.minimumBalance VaultConfig.space)))
  simp only [finalizeExecution, Except.bind_eq_ok, require_eq_ok, requireSigner_eq_ok,
    requireSeeds_eq_ok, loadVaultConfig_eq_ok, loadExecutionLog_eq_ok, exists_const]
  exact ⟨_, hsign, v, hgate.config, l, hgate.log, _, hload, hgate.seeds, hexec, trivial, hpin, hshares,
    (), hcheck, hpay⟩

/-- One unpaid token share at a time. -/
theorem executeTokenShares_progress (hs : s.Regular c) {d : TokenDist} {i : Nat} {b : Beneficiary}
    {dest : Pubkey} (hsign : payer.canSign = true) (hv : s.vaultConfigs vaultKey = some v)
    (hseeds : vaultKey = .vault v.owner) (hmint : (s.mints m).isSome = true)
    (hd : s.tokenDists (.tokenDist vaultKey m) = some d) (hheld : d.vault = vaultKey)
    (hb : v.beneficiaries[i]? = some b) (hclear : Bitmask.test d.paidMask i = false)
    (hata : s.tokenAccounts (canonicalAta c vaultKey m) =
      some ⟨some (c.tokenProgram m), m, vaultKey⟩)
    (hdest : s.tokenAccounts dest = some ⟨some (c.tokenProgram m), m, b.wallet⟩)
    (hn : shareAmount d.snapshot b.shareBps ≤ s.tokenAmounts (canonicalAta c vaultKey m)) :
    ∃ s', executeTokenShares c ⟨payer, vaultKey, .tokenDist vaultKey m, m,
      canonicalAta c vaultKey m, c.tokenProgram m, [⟨dest, true⟩]⟩ [i] s = .ok s' := by
  obtain ⟨m', hm'⟩ := Option.isSome_iff_exists.mp hmint
  have hpay := transferPositive_progress (hs.putTokenDist (.tokenDist vaultKey m)
    (some { d with paidMask := Bitmask.mark d.paidMask i })) (.tokenShare i) hm' hata hdest hn
  have hturn : ∃ s', payTokenShare c ⟨payer, vaultKey, .tokenDist vaultKey m, m,
      canonicalAta c vaultKey m, c.tokenProgram m, [⟨dest, true⟩]⟩ v.beneficiaries d.snapshot
      m'.decimals s (i, ⟨dest, true⟩) = .ok s' := by
    have hset : ¬ Bitmask.test d.paidMask i = true := by simp [hclear]
    simp only [payTokenShare, Except.bind_eq_ok, okOr_eq_ok, loadTokenDist_eq_ok]
    refine ⟨(s.putTokenDist (.tokenDist vaultKey m) (some { d with
      paidMask := Bitmask.mark d.paidMask i })).payTokens (canonicalAta c vaultKey m) m dest b.wallet
      (shareAmount d.snapshot b.shareBps) (.tokenShare i), b, hb, d, hd, ?_⟩
    rw [if_neg hset]
    simp only [Except.bind_eq_ok, require_eq_ok, okOr_eq_ok, exists_const]
    exact ⟨trivial, _, hdest, ⟨rfl, rfl⟩, hpay⟩
  obtain ⟨s', hturn⟩ := hturn
  simp only [executeTokenShares, Except.bind_eq_ok, require_eq_ok, requireSigner_eq_ok,
    requireSeeds_eq_ok, loadVaultConfig_eq_ok, loadTokenDist_eq_ok, loadMint_eq_ok,
    loadTokenAccount_eq_ok, exists_const]
  exact ⟨s', hsign, v, hv, d, hd, m', hm', _, ⟨hata, rfl⟩, hseeds, trivial, hheld, rfl, rfl, rfl,
    trivial, foldlM_eq_ok.mpr (.single hturn)⟩

/-- A paid distribution is closed, with an account for the dust at hand and no fees withheld. -/
theorem closeTokenDist_progress (hs : s.Regular c) {d : TokenDist} {b : Beneficiary}
    {dest : Pubkey} (hsign : payer.canSign = true) (hv : s.vaultConfigs vaultKey = some v)
    (hseeds : vaultKey = .vault v.owner) (hexec : v.executed = true)
    (hmint : (s.mints m).isSome = true) (hd : s.tokenDists (.tokenDist vaultKey m) = some d)
    (hheld : d.vault = vaultKey) (hpaid : d.paidMask = fullMaskU32 v.beneficiaries.length)
    (hata : s.tokenAccounts (canonicalAta c vaultKey m) =
      some ⟨some (c.tokenProgram m), m, vaultKey⟩)
    (hfees : s.withheldFees (canonicalAta c vaultKey m) = 0)
    (hb : v.beneficiaries[largestShareIndex v.beneficiaries]? = some b)
    (hself : b.wallet ≠ vaultKey)
    (hdest : s.tokenAccounts dest = some ⟨some (c.tokenProgram m), m, b.wallet⟩) :
    ∃ s', closeTokenDist c ⟨payer, v.owner, vaultKey, m, canonicalAta c vaultKey m,
      .tokenDist vaultKey m, some dest, c.tokenProgram m⟩ s = .ok s' := by
  obtain ⟨m', hm'⟩ := Option.isSome_iff_exists.mp hmint
  have hne : canonicalAta c vaultKey m ≠ dest := by
    intro heq
    rw [heq, hdest] at hata
    exact hself (congrArg TokenAccount.owner (Option.some.inj hata))
  have hsweep : sweepTokenDust c ⟨payer, v.owner, vaultKey, m, canonicalAta c vaultKey m,
      .tokenDist vaultKey m, some dest, c.tokenProgram m⟩ v m'.decimals
      (some (dest, ⟨some (c.tokenProgram m), m, b.wallet⟩)) s =
      .ok (s.payTokens (canonicalAta c vaultKey m) m dest b.wallet
        (s.tokenAmounts (canonicalAta c vaultKey m)) .tokenDust) := by
    have hpay := transferPositive_progress hs .tokenDust hm' hata hdest
      (le_refl (s.tokenAmounts (canonicalAta c vaultKey m)))
    unfold transferPositive at hpay
    simp only [sweepTokenDust]
    by_cases hpos : 0 < s.tokenAmounts (canonicalAta c vaultKey m)
    · rw [if_pos hpos] at hpay ⊢
      simp only [Except.bind_eq_ok, okOr_eq_ok, require_eq_ok, exists_const]
      exact ⟨b, hb, _, rfl, ⟨rfl, rfl⟩, hpay⟩
    · rw [if_neg hpos] at hpay ⊢
      exact hpay
  have hempty : (s.payTokens (canonicalAta c vaultKey m) m dest b.wallet
      (s.tokenAmounts (canonicalAta c vaultKey m)) .tokenDust).tokenAmounts
      (canonicalAta c vaultKey m) = 0 := by
    rw [payTokens_tokenAmounts, Ledger.move_source hne, Nat.sub_self]
  have hclose := closeTokenAccount_progress v.owner hempty hfees hs.lamportSupply hata
  simp only [closeTokenDist, Except.bind_eq_ok, require_eq_ok, requireSigner_eq_ok,
    requireSeeds_eq_ok, loadVaultConfig_eq_ok, loadMint_eq_ok, loadTokenDist_eq_ok,
    loadTokenAccount_eq_ok, loadOptionalTokenAccount, Except.pure_eq_ok, exists_const]
  refine ⟨_, hsign, v, hv, m', hm', _, ⟨hata, rfl⟩, d, hd, _, ⟨_, ⟨hdest, rfl⟩, rfl⟩, rfl, hseeds,
    hexec, rfl, rfl, trivial, hheld, hpaid, trivial, _, hsweep, _, hclose, _, refundLamports_progress ?_, rfl⟩
  exact hs.lamportSupply.move le_rfl

/-- What is left of an executed vault can be swept and closed. -/
theorem settleAndClose_progress (hs : s.Regular c) {b : Beneficiary} (dest : Pubkey)
    (hplan : PlanLoads s vaultKey v)
    (hb : v.beneficiaries[largestShareIndex v.beneficiaries]? = some b) :
    ∃ s', settleAndClose c v (s.registeredPlan vaultKey v) vaultKey (.heartbeat vaultKey)
      (.execution vaultKey) dest (some b.wallet) s = .ok s' := by
  obtain ⟨s₁, hsweep, hsupply, hassets⟩ : ∃ s₁,
      sweepSolDust c v vaultKey (some b.wallet) s = .ok s₁ ∧
      Ledger.Bounded s₁.lamports u64Max ∧ s₁.assetPlans = s.assetPlans := by
    simp only [sweepSolDust]
    split
    · have hle : s.lamports vaultKey - c.minimumBalance VaultConfig.space ≤ s.lamports vaultKey :=
        Nat.sub_le _ _
      simp only [Except.bind_eq_ok, okOr_eq_ok, require_eq_ok, exists_const]
      exact ⟨_, ⟨b, hb, _, rfl, rfl, payLamports_eq_ok.mpr ⟨hle, hs.lamports_fit hle, rfl⟩⟩,
        hs.lamportSupply.move hle, rfl⟩
    · exact ⟨s, rfl, hs.lamportSupply, rfl⟩
  obtain ⟨s₂, hclose, hsupply₂⟩ : ∃ s₂,
      closeRegisteredPlan s₁ v (s.registeredPlan vaultKey v) vaultKey dest = .ok s₂ ∧
      Ledger.Bounded s₂.lamports u64Max := by
    unfold closeRegisteredPlan
    split
    · rename_i hhas
      obtain ⟨p, hp, hpin⟩ := hplan hhas
      have hreg : s.registeredPlan vaultKey v = some p := by simp [World.registeredPlan, hhas, hp]
      have hfit := hsupply.credit_le (a := .assetPlan vaultKey) (b := dest) le_rfl
      rw [Nat.sub_self] at hfit
      simp only [hreg, Except.bind_eq_ok, okOr_eq_ok, require_eq_ok, exists_const]
      exact ⟨_, ⟨p, rfl, hpin, closeAssetPlan_eq_ok.mpr ⟨hfit, rfl⟩⟩, hsupply.move le_rfl⟩
    · exact ⟨s₁, rfl, hsupply⟩
  simp only [settleAndClose, Except.bind_eq_ok, Except.pure_eq_ok]
  have hsupply₃ := hsupply₂.move (a := vaultKey) (b := dest) le_rfl
  exact ⟨_, s₁, hsweep, s₂, hclose, _, refundLamports_progress hsupply₂, _,
    refundLamports_progress hsupply₃, _, refundLamports_progress (hsupply₃.move le_rfl), rfl⟩

/-- After the delay, an executed vault without open distributions is closed by anyone. -/
theorem closeExecutedVault_progress (hs : s.Regular c) {h : HeartbeatRecord} {b : Beneficiary}
    (hsign : payer.canSign = true) (hgate : Executing s vaultKey v l) (hpin : l.vault = vaultKey)
    (hh : s.heartbeatRecords (.heartbeat vaultKey) = some h) (hheart : h.vault = vaultKey)
    (hexec : v.executed = true) (hdone : l.completed = true) (hopen : v.openTokenDists = 0)
    (hplan : PlanLoads s vaultKey v) (hmin : i64Min ≤ l.startedAt)
    (hdelay : l.startedAt + executedCloseDelay c.devnet ≤ s.now)
    (hb : v.beneficiaries[largestShareIndex v.beneficiaries]? = some b) :
    ∃ s', closeExecutedVault c ⟨payer, vaultKey, .heartbeat vaultKey, .execution vaultKey,
      v.planKey vaultKey, some b.wallet⟩ s = .ok s' := by
  obtain ⟨hload, -⟩ := hplan.load
  obtain ⟨s', hsettle⟩ := settleAndClose_progress hs payer hplan hb
  have hadd : checkedAddI64 l.startedAt (executedCloseDelay c.devnet) =
      some (l.startedAt + executedCloseDelay c.devnet) := by
    have hpos : 0 ≤ executedCloseDelay c.devnet := by
      unfold executedCloseDelay
      split <;> decide
    have hmax := hs.clock.2
    exact if_pos ⟨by omega, by omega⟩
  simp only [closeExecutedVault, Except.bind_eq_ok, require_eq_ok, requireSigner_eq_ok,
    requireSeeds_eq_ok, loadVaultConfig_eq_ok, loadHeartbeatRecord_eq_ok, loadExecutionLog_eq_ok,
    okOr_eq_ok, exists_const]
  exact ⟨s', hsign, v, hgate.config, h, hh, l, hgate.log, _, hload, hgate.seeds, hexec, trivial, hheart,
    trivial, hpin, hdone, hopen, _, hadd, hdelay, hsettle⟩

/-! ## The creation of a vault -/

/-- An owner who can pay for it creates a vault from accepted parameters. -/
theorem initializeVault_progress (hs : s.Regular c) {owner : Pubkey}
    {params : InitializeVaultParams} (hsign : owner.canSign = true)
    (hv : s.vaultConfigs (.vault owner) = none)
    (hh : s.heartbeatRecords (.heartbeat (.vault owner)) = none)
    (hi : minHeartbeatInterval c.devnet ≤ params.heartbeatInterval ∧
      params.heartbeatInterval ≤ maxHeartbeatInterval)
    (hg : minGracePeriod c.devnet ≤ params.gracePeriod ∧ params.gracePeriod ≤ maxGracePeriod)
    (hcount : params.beneficiaries ≠ [] ∧ params.beneficiaries.length ≤ maxBeneficiaries)
    (hshares : (params.beneficiaries.map (·.shareBps)).sum = 10000)
    (hother : ∀ b ∈ params.beneficiaries, b.wallet ≠ owner)
    (hagent : params.agentPubkey ≠ .default ∧ params.agentPubkey ≠ owner)
    (hbounty : params.keeperBounty ≤ maxKeeperBountyLamports)
    (hfunds : max (c.minimumBalance VaultConfig.space) 1 +
      max (c.minimumBalance HeartbeatRecord.space) 1 + vaultCreationFeeLamports ≤
        s.lamports owner) :
    ∃ s' v, initializeVault c ⟨owner, .vault owner, .heartbeat (.vault owner), feeWallet⟩ params s =
      .ok s' ∧ s'.vaultConfigs (.vault owner) = some v ∧ v.beneficiaries = params.beneficiaries ∧
      s'.tokenDists = s.tokenDists := by
  have hkey : ∀ k : Pubkey, k.canSign = false → owner ≠ k := by
    rintro k hk rfl
    exact absurd (hk.symm.trans hsign) Bool.false_ne_true
  obtain ⟨n, hn, hfund⟩ : ∃ n, n ≤ max (c.minimumBalance VaultConfig.space) 1 ∧
      s.fundRent c owner (.vault owner) VaultConfig.space =
        .ok (s.sendLamports owner (.vault owner) n .rent) :=
    fundRent_progress hs (by omega)
  have hle : n ≤ s.lamports owner := by omega
  have hs₁ : (s.sendLamports owner (.vault owner) n .rent).Regular c := hs.sendLamports hle .rent
  have hleft : (s.sendLamports owner (.vault owner) n .rent).lamports owner =
      s.lamports owner - n := Ledger.move_source (hkey _ rfl)
  obtain ⟨n', hn', hfund'⟩ : ∃ n', n' ≤ max (c.minimumBalance HeartbeatRecord.space) 1 ∧
      (s.sendLamports owner (.vault owner) n .rent).fundRent c owner (.heartbeat (.vault owner))
        HeartbeatRecord.space = .ok ((s.sendLamports owner (.vault owner) n .rent).sendLamports owner
          (.heartbeat (.vault owner)) n' .rent) :=
    fundRent_progress hs₁ (by omega)
  have hle' : n' ≤ (s.sendLamports owner (.vault owner) n .rent).lamports owner := by omega
  have hleft' : ((s.sendLamports owner (.vault owner) n .rent).sendLamports owner
      (.heartbeat (.vault owner)) n' .rent).lamports owner = s.lamports owner - n - n' := by
    rw [sendLamports_lamports, Ledger.move_source (hkey _ rfl), hleft]
  have hfee : vaultCreationFeeLamports ≤ ((s.sendLamports owner (.vault owner) n .rent).sendLamports
      owner (.heartbeat (.vault owner)) n' .rent).lamports owner := by omega
  simp only [initializeVault, Except.bind_eq_ok, require_eq_ok, requireSigner_eq_ok,
    requireSeeds_eq_ok, exists_const]
  exact ⟨_, _, ⟨hsign, trivial, hv, _, hfund, trivial, hh, _, hfund', trivial, hi.1, hi.2, hg.1, hg.2,
    hcount, hshares, hother, hagent.1, hagent.2, hbounty, transferLamports_eq_ok.mpr ⟨hfee,
      (hs₁.sendLamports hle' .rent).lamports_fit hfee, rfl⟩⟩, Function.update_self .., rfl, rfl⟩

end DeadMansVault
