-- SUMMARY: A vault with one mint more than its counter can count, from its creation to the one after its close.
import DeadMansVault.Guarantees.Distributions
import DeadMansVault.Program.Progress
import DeadMansVault.Program.Scenario

/-!
# Saturation

The counter of open distributions is a saturating `u16`, and the mints of a vault
are as many as anyone likes to send it. With 65536 of them open the counter stands
at 65535; it is back at zero while one is still open, and the vault closes over it.
-/

namespace DeadMansVault

open World

namespace Crowd

open Sample

/-! ## The executed vault -/

def genesis : Genesis where
  lamports := [(owner, 1_000_000_000), (keeper, 1_000_000_000_000), (vault, 500_000_000)]
  tokens := []
  mints := []

/-- From the creation of the vault to the delay after its execution. -/
def prologue : List Cue := [
  .run (Sample.initializeVault beneficiaries),
  .wait 691_200,
  .run (.beginExecution ⟨keeper, vault, .heartbeat vault, .execution vault, none⟩),
  Sample.executeSolShares [alice, bob] [0, 1],
  .run (.finalizeExecution ⟨keeper, vault, .execution vault, none⟩),
  .wait 86_400]

/-- The world before any token has arrived. -/
def ready : World := genesis.world.play cluster prologue

/-- The config of the executed vault with a counter of `n`. -/
def config (n : Nat) : VaultConfig :=
  { Sample.config with executed := true, active := false, hasAssetPlan := false, openTokenDists := n }

def log : ExecutionLog where
  vault := vault
  solSnapshot := 493_150_360
  solPaidMask := 3
  startedAt := 691_200
  completed := true
  transferCount := 2
  totalSolDistributed := 493_150_360

theorem ready_evaluates :
    genesis.consistent = true ∧ genesis.world.plays cluster opensBelow prologue = true ∧
    ready.vaultConfigs vault = some (config 0) ∧
    ready.executionLogs (.execution vault) = some log ∧
    ready.heartbeatRecords (.heartbeat vault) = some heartbeat ∧ ready.now = 777_600 ∧
    200_000_000_000 ≤ ready.lamports keeper ∧ 500_000_000 ≤ ready.lamports owner := by
  decide +kernel

theorem ready_reachable : Reachable cluster ready :=
  (Reachable.initial (Genesis.initial ready_evaluates.1)).trace
    (((Reachable.initial (Genesis.initial ready_evaluates.1)).sound.play
      ready_evaluates.2.1).mono fun _ _ _ hstep => hstep.1)

theorem ready_config : ready.vaultConfigs vault = some (config 0) := ready_evaluates.2.2.1

/-- No distribution is open yet. -/
theorem ready_dists (m : Pubkey) : ready.tokenDists (.tokenDist vault m) = none := by
  obtain ⟨-, -, hT⟩ := tallied_trace (Genesis.initial ready_evaluates.1)
    (Genesis.play_below ready_evaluates.1 ready_evaluates.2.1 owner)
  have hcount := hT.count _ ready_config
  rw [show (config 0).openTokenDists = 0 from rfl, Nat.cast_zero, Set.encard_eq_zero] at hcount
  have hm : m ∉ ready.openDists owner := by
    change m ∉ (ready.estate cluster owner).openDists
    rw [ready, hcount]
    exact Set.notMem_empty m
  exact Option.not_isSome_iff_eq_none.mp hm

/-! ## The tokens -/

/-- One of the mints. -/
def coin (i : Nat) : Pubkey := .key (100 + i)

def isCoin : Pubkey → Bool
  | .key n => 100 ≤ n && n < 65_636
  | _ => false

theorem isCoin_coin {i : Nat} (hi : i < 65_536) : isCoin (coin i) = true := by
  simp [isCoin, coin]
  omega

/-- The associated account of a wallet. -/
def purse (wallet m : Pubkey) : Pubkey := .associatedToken wallet m .token

/-- The world after someone has sent the vault one token of each mint. -/
def crowded : World := { ready with
  mints := fun k => if isCoin k then some ⟨6⟩ else none
  tokenAccounts := fun k => match k with
    | .associatedToken wallet m .token =>
      if isCoin m ∧ wallet ∈ [vault, alice, bob] then some ⟨some .token, m, wallet⟩ else none
    | _ => none
  tokenAmounts := fun k => match k with
    | .associatedToken wallet m .token => if isCoin m ∧ wallet = vault then 1 else 0
    | _ => 0
  withheldFees := fun _ => 0 }

theorem crowded_purse {i : Nat} (hi : i < 65_536) {wallet : Pubkey}
    (hw : wallet ∈ [vault, alice, bob]) :
    crowded.tokenAccounts (purse wallet (coin i)) = some ⟨some .token, coin i, wallet⟩ := by
  simp only [crowded, purse]
  rw [if_pos ⟨isCoin_coin hi, hw⟩]

theorem crowded_amount {i : Nat} (hi : i < 65_536) :
    crowded.tokenAmounts (purse vault (coin i)) = 1 := by
  simp [crowded, purse, isCoin_coin hi]

/-- Of a mint the vault holds one token, and nobody else holds any. -/
theorem crowded_mintLedger (mint k : Pubkey) :
    crowded.mintLedger cluster mint k ≤ Ledger.ofList [(purse vault mint, 1)] k := by
  unfold World.mintLedger
  cases hacc : crowded.tokenAccounts k with
  | none => exact Nat.zero_le _
  | some account =>
      dsimp only
      split
      · rename_i hmint
        simp only [crowded] at hacc ⊢
        split at hacc
        · rename_i wallet m
          obtain ⟨-, ⟨⟩⟩ := Option.ite_none_right_eq_some.mp hacc
          obtain rfl : m = mint := hmint.2
          by_cases hw : wallet = vault
          · subst hw
            simp only [Ledger.ofList, purse, if_true]
            split <;> decide
          · simp [hw]
        · cases hacc
      · exact Nat.zero_le _

theorem crowded_regular : crowded.Regular cluster := by
  have hready := ready_reachable.sound.regular
  refine ⟨hready.clock, hready.lamportSupply, fun mint => ?_, fun k hk => ?_, ?_, rfl⟩
  · have hone : ([(purse vault mint, 1)].map Prod.snd).sum ≤ u64Max :=
      show 1 ≤ u64Max by decide
    exact ((Ledger.bounded_ofList _).weaken hone).mono (crowded_mintLedger mint)
  · simp only [crowded] at hk ⊢
    split at hk
    · rename_i wallet m
      simp only [ite_eq_right_iff, reduceCtorEq, imp_false] at hk
      simp only [ite_eq_right_iff, one_ne_zero, imp_false]
      rintro ⟨hcoin, rfl⟩
      exact hk ⟨hcoin, by simp⟩
    · rfl
  · intro o mint program account hacc
    simp only [crowded] at hacc
    split at hacc
    · rename_i wallet m heq
      obtain ⟨-, ⟨⟩⟩ := Option.ite_none_right_eq_some.mp hacc
      cases heq
      rfl
    · cases hacc

theorem crowded_reachable : Reachable cluster crowded := by
  refine ready_reachable.step (.environment ⟨crowded_regular, le_rfl, rfl, rfl, rfl, rfl, rfl,
    fun _ _ => le_rfl, fun k account o hacc => ?_⟩)
  have hinit : Initial cluster genesis.world := Genesis.initial ready_evaluates.1
  have hnone := (Reachable.initial hinit).sound.play_tokenAccounts ready_evaluates.2.1 hacc
  cases hnone

/-! ## Opening and paying -/

/-- The distribution of a mint with the mask. One token is too little to share. -/
def dist (i : Nat) (mask : BitVec 32) : TokenDist := ⟨vault, coin i, 1, mask⟩

def rent : Nat := max (cluster.minimumBalance TokenDist.space) 1

/-- What no step of the run changes. -/
structure Standing (s : World) : Prop where
  reachable : Reachable cluster s
  now : s.now = 777_600
  log : s.executionLogs (.execution vault) = some log
  record : s.heartbeatRecords (.heartbeat vault) = some heartbeat
  mints : s.mints = crowded.mints
  fees : s.withheldFees = crowded.withheldFees
  owner : 500_000_000 ≤ s.lamports owner

/-- The first `n` distributions are open and paid. -/
structure Opened (n : Nat) (s : World) : Prop extends Standing s where
  config : s.vaultConfigs vault = some (config (min n u16Max))
  opened : ∀ i < n, s.tokenDists (.tokenDist vault (coin i)) = some (dist i 3)
  unopened : ∀ i, n ≤ i → s.tokenDists (.tokenDist vault (coin i)) = none
  accounts : s.tokenAccounts = crowded.tokenAccounts
  amounts : s.tokenAmounts = crowded.tokenAmounts
  payer : (65_536 - n) * rent ≤ s.lamports keeper

theorem crowded_opened : Opened 0 crowded where
  reachable := crowded_reachable
  now := ready_evaluates.2.2.2.2.2.1
  log := ready_evaluates.2.2.2.1
  record := ready_evaluates.2.2.2.2.1
  mints := rfl
  fees := rfl
  owner := ready_evaluates.2.2.2.2.2.2.2
  config := ready_config
  opened := nofun
  unopened i _ := ready_dists (coin i)
  accounts := rfl
  amounts := rfl
  payer := le_trans (by decide) ready_evaluates.2.2.2.2.2.2.1

theorem coin_ne {i j : Nat} (h : i ≠ j) : Pubkey.tokenDist vault (coin i) ≠ .tokenDist vault (coin j) := by
  simp [coin, h]

theorem Standing.mint {s : World} (h : Standing s) {i : Nat} (hi : i < 65_536) :
    (s.mints (coin i)).isSome = true := by
  rw [h.mints]
  simp [crowded, isCoin_coin hi]

theorem Standing.putTokenDist {s : World} {e : Event} {k : Pubkey} {d : Option TokenDist}
    (h : Standing s) (hstep : Step cluster s e (s.fresh.putTokenDist k d)) :
    Standing (s.fresh.putTokenDist k d) :=
  ⟨h.reachable.step hstep, h.now, h.log, h.record, h.mints, h.fees, h.owner⟩

/-- A share of nothing only marks the mask. -/
theorem pay {s : World} {i j n : Nat} {mask : BitVec 32} {b : Beneficiary} (hstand : Standing s)
    (hi : i < 65_536) (hconfig : s.vaultConfigs vault = some (config n))
    (hdist : s.tokenDists (.tokenDist vault (coin i)) = some (dist i mask))
    (hacc : s.tokenAccounts = crowded.tokenAccounts)
    (hb : beneficiaries[j]? = some b) (hclear : Bitmask.test mask j = false)
    (hw : b.wallet ∈ [vault, alice, bob]) (hnone : shareAmount 1 b.shareBps = 0) :
    ∃ e, Step cluster s e (s.fresh.putTokenDist (.tokenDist vault (coin i))
      (some (dist i (Bitmask.mark mask j)))) := by
  have hregular := hstand.reachable.sound.regular
  have hpurse : ∀ wallet ∈ [vault, alice, bob], s.fresh.tokenAccounts (purse wallet (coin i)) =
      some ⟨some .token, coin i, wallet⟩ := fun wallet hwallet => by
    rw [fresh_tokenAccounts, hacc, crowded_purse hi hwallet]
  have hexec : ∃ s', executeTokenShares cluster ⟨keeper, vault, .tokenDist vault (coin i), coin i,
      canonicalAta cluster vault (coin i), .token, [⟨purse b.wallet (coin i), true⟩]⟩ [j] s.fresh =
      .ok s' :=
    executeTokenShares_progress hregular.fresh rfl hconfig rfl (hstand.mint hi) hdist rfl hb hclear
      (hpurse vault (by simp)) (hpurse b.wallet hw)
      (by rw [show (dist i mask).snapshot = 1 from rfl, hnone]; exact Nat.zero_le _)
  obtain ⟨s', hexec⟩ := hexec
  suffices heq : s' = s.fresh.putTokenDist (.tokenDist vault (coin i))
      (some (dist i (Bitmask.mark mask j))) by
    rw [← heq]
    exact ⟨_, .executed (i := .executeTokenShares _ [j]) hexec⟩
  obtain ⟨v, d, decimals, -, hv, -, -, -, hd, hturns⟩ := executeTokenShares_ok hexec
  obtain rfl := Option.some.inj (hconfig.symm.trans hv)
  obtain rfl := Option.some.inj (hdist.symm.trans hd)
  obtain ⟨_, hturn, hend⟩ := Trace.cons_iff.mp hturns
  obtain rfl := Trace.nil_iff.mp hend
  obtain ⟨b', d, hb', hd, hturn⟩ := payTokenShare_ok hturn
  obtain rfl := Option.some.inj (hb.symm.trans hb')
  obtain rfl := Option.some.inj (hdist.symm.trans hd)
  rcases hturn with ⟨hset, -⟩ | ⟨-, _, -, -, -, rfl⟩
  · exact absurd (hclear.symm.trans hset) Bool.false_ne_true
  · rw [show (dist i mask).snapshot = 1 from rfl, hnone, payTokens_eq, if_neg (by decide)]
    rfl

/-- One more distribution is opened and paid. -/
theorem Opened.next {n : Nat} {s : World} (h : Opened n s) (hn : n < 65_536) :
    ∃ es s', Trace (Step cluster) s es s' ∧ Opened (n + 1) s' := by
  have hregular := h.reachable.sound.regular
  have hamount : s.fresh.tokenAmounts (canonicalAta cluster vault (coin n)) = 1 := by
    rw [fresh_tokenAmounts, h.amounts]
    exact crowded_amount hn
  have hrent : rent ≤ s.fresh.lamports keeper := by
    refine le_trans ?_ h.payer
    exact Nat.le_mul_of_pos_left rent (by omega)
  have hnoplan : PlanLoads s.fresh vault (Crowd.config (min n u16Max)) := fun hhas => by cases hhas
  obtain ⟨s₁, hbegin, hpaid⟩ := beginTokenDist_progress hregular.fresh (show keeper.canSign = true by
    rfl) ⟨h.config, h.log, rfl⟩ rfl hnoplan (h.mint hn) (h.unopened n le_rfl)
    (.inl (hamount ▸ Nat.one_pos)) hrent
  obtain ⟨v, l, k, -, hgate, -, -, hk, -, heq⟩ := beginTokenDist_ok hregular.fresh.vacant hbegin
  obtain rfl := Option.some.inj (h.config.symm.trans hgate.config)
  dsimp only [distCall] at heq
  have hstep : Step cluster s _ s₁ := .executed (i := .beginTokenDist _) hbegin
  have hstand : Standing s₁ := by
    refine ⟨h.reachable.step hstep, ?_, ?_, ?_, ?_, ?_, ?_⟩ <;> rw [heq]
    · exact h.now
    · exact h.log
    · exact h.record
    · exact h.mints
    · exact h.fees
    · rw [putVaultConfig_lamports, putTokenDist_lamports, sendLamports_lamports]
      exact h.owner.trans (Ledger.le_move (show owner ≠ keeper by decide))
  have hconfig : s₁.vaultConfigs vault = some (Crowd.config (min (n + 1) u16Max)) := by
    rw [heq, putVaultConfig_vaultConfigs, Function.update_self, ← show
      saturatingAdd u16Max (min n u16Max) 1 = min (n + 1) u16Max by unfold saturatingAdd; omega]
    rfl
  have hdist : s₁.tokenDists (.tokenDist vault (coin n)) = some (dist n 0) := by
    rw [heq, putVaultConfig_tokenDists, putTokenDist_tokenDists, Function.update_self, hamount]
    rfl
  have hacc : s₁.tokenAccounts = crowded.tokenAccounts := by
    rw [heq]
    exact h.accounts
  -- Both shares of one token are nothing.
  obtain ⟨e₂, hstep₂⟩ := pay hstand hn hconfig hdist hacc
    (show beneficiaries[0]? = some ⟨alice, 6_000⟩ from rfl) (by decide) (by decide) (by decide)
  have hstand₂ := hstand.putTokenDist hstep₂
  obtain ⟨e₃, hstep₃⟩ := pay hstand₂ hn hconfig (Function.update_self ..) hacc
    (show beneficiaries[1]? = some ⟨bob, 4_000⟩ from rfl) (by decide) (by decide) (by decide)
  have hmask : Bitmask.mark (Bitmask.mark 0 0) 1 = (3 : BitVec 32) := by decide
  rw [hmask] at hstep₃
  have hother : ∀ i, i ≠ n → s₁.tokenDists (.tokenDist vault (coin i)) =
      s.tokenDists (.tokenDist vault (coin i)) := by
    intro i hi
    rw [heq, putVaultConfig_tokenDists, putTokenDist_tokenDists, Function.update_of_ne (coin_ne hi)]
    rfl
  have hkeep : ∀ i, i ≠ n → ((s₁.fresh.putTokenDist (.tokenDist vault (coin n))
      (some (dist n (Bitmask.mark 0 0)))).fresh.putTokenDist (.tokenDist vault (coin n))
      (some (dist n 3))).tokenDists (.tokenDist vault (coin i)) =
        s.tokenDists (.tokenDist vault (coin i)) := by
    intro i hi
    rw [putTokenDist_tokenDists, Function.update_of_ne (coin_ne hi), fresh_tokenDists,
      putTokenDist_tokenDists, Function.update_of_ne (coin_ne hi), fresh_tokenDists, hother i hi]
  refine ⟨_, _, .cons hstep (.cons hstep₂ (.single hstep₃)), hstand₂.putTokenDist hstep₃, hconfig,
    fun i hi => ?_, fun i hi => ?_, hacc, ?_, ?_⟩
  · rcases Nat.lt_succ_iff_lt_or_eq.mp hi with hlt | rfl
    · rw [hkeep i (by omega), h.opened i hlt]
    · exact Function.update_self ..
  · rw [hkeep i (by omega), h.unopened i (by omega)]
  · change s₁.tokenAmounts = _
    rw [heq]
    exact h.amounts
  · have hleft : (65_536 - n) * rent = (65_536 - (n + 1)) * rent + rent := by
      rw [← Nat.succ_mul, show (65_536 - (n + 1)).succ = 65_536 - n by omega]
    have hhad : (65_536 - n) * rent ≤ s₁.lamports keeper + rent := h.payer.trans hpaid
    rw [hleft] at hhad
    exact Nat.le_of_add_le_add_right hhad

/-- All distributions are open. -/
theorem crowded_opens : ∃ es s, Trace (Step cluster) crowded es s ∧ Opened 65_536 s := by
  have hall : ∀ n ≤ 65_536, ∃ es s, Trace (Step cluster) crowded es s ∧ Opened n s := by
    intro n
    induction n with
    | zero => exact fun _ => ⟨[], crowded, .nil _, crowded_opened⟩
    | succ n ih =>
        intro hn
        obtain ⟨es, s, hrun, hopened⟩ := ih (by omega)
        obtain ⟨es', s', hrun', hopened'⟩ := hopened.next hn
        exact ⟨_, s', hrun.append hrun', hopened'⟩
  exact hall _ le_rfl

/-! ## Closing -/

/-- The first `n` distributions are closed again. -/
structure Closed (n : Nat) (s : World) : Prop extends Standing s where
  config : s.vaultConfigs vault = some (config (u16Max - n))
  unclosed : ∀ i, n ≤ i → i < 65_536 → s.tokenDists (.tokenDist vault (coin i)) = some (dist i 3)
  accounts : ∀ i, n ≤ i → i < 65_536 → ∀ wallet ∈ [vault, alice, bob],
    s.tokenAccounts (purse wallet (coin i)) = some ⟨some .token, coin i, wallet⟩

theorem Opened.closed {s : World} (h : Opened 65_536 s) : Closed 0 s where
  toStanding := h.toStanding
  config := h.config
  unclosed i _ hi := h.opened i hi
  accounts i _ hi wallet hw := by rw [h.accounts, crowded_purse hi hw]

theorem Closed.next {n : Nat} {s : World} (h : Closed n s) (hn : n < 65_536) :
    ∃ e s', Step cluster s e s' ∧ Closed (n + 1) s' := by
  have hregular := h.reachable.sound.regular
  have hpurse := h.accounts n le_rfl hn
  have hdist := h.unclosed n le_rfl hn
  have hfull : (3 : BitVec 32) = fullMaskU32 beneficiaries.length := by decide
  have hlargest : beneficiaries[largestShareIndex beneficiaries]? = some ⟨alice, 6_000⟩ := by decide
  have hexec : ∃ s', closeTokenDist cluster ⟨keeper, owner, vault, coin n,
      canonicalAta cluster vault (coin n), .tokenDist vault (coin n), some (purse alice (coin n)),
      .token⟩ s.fresh = .ok s' :=
    closeTokenDist_progress (v := Crowd.config (u16Max - n)) (d := dist n 3) (b := ⟨alice, 6_000⟩)
      hregular.fresh rfl h.config rfl rfl (h.mint hn) hdist rfl hfull (hpurse vault (by simp))
      (congrFun h.fees _) hlargest (by decide) (hpurse alice (by simp))
  obtain ⟨s', hexec⟩ := hexec
  have hstep : Step cluster s _ s' := .executed (i := .closeTokenDist _) hexec
  obtain ⟨v, d, dest, _, s₁, s₂, -, hv, -, -, hd, -, hsweep, rfl, -, -, rfl, heq⟩ :=
    closeTokenDist_ok hexec
  obtain rfl := Option.some.inj (h.config.symm.trans hv)
  dsimp only at heq
  refine ⟨_, s', hstep, ⟨h.reachable.step hstep, ?_, ?_, ?_, ?_, ?_, ?_⟩, ?_, ?_, ?_⟩
  · rw [heq]
    exact h.now
  · rw [heq]
    exact h.log
  · rw [heq]
    exact h.record
  · rw [heq]
    exact h.mints
  · rw [heq]
    exact h.fees
  · rw [heq, putTokenDist_lamports, sendLamports_lamports]
    refine h.owner.trans (le_trans ?_ (Ledger.le_move (show owner ≠ .tokenDist _ _ by nofun)))
    rw [putVaultConfig_lamports, dropTokenAccount_lamports, sendLamports_lamports]
    exact Ledger.le_move (show owner ≠ .associatedToken _ _ _ by nofun)
  · rw [heq, putTokenDist_vaultConfigs, sendLamports_vaultConfigs, putVaultConfig_vaultConfigs,
      Function.update_self, ← Nat.sub_sub]
    rfl
  · intro i hi hlt
    rw [heq, putTokenDist_tokenDists, Function.update_of_ne (coin_ne (by omega))]
    exact h.unclosed i (by omega) hlt
  · intro i hi hlt wallet hw
    have hne : purse wallet (coin i) ≠ canonicalAta cluster vault (coin n) := by
      have hcoin : i ≠ n := by omega
      simp [purse, canonicalAta, coin, hcoin]
    rw [heq]
    change Function.update s.tokenAccounts (canonicalAta cluster vault (coin n)) none _ = _
    rw [Function.update_of_ne hne]
    exact h.accounts i (by omega) hlt wallet hw

/-- The counter is back at zero, and one distribution is left. -/
theorem crowded_closes : ∃ es s, Trace (Step cluster) crowded es s ∧ Closed u16Max s := by
  obtain ⟨es₀, s₀, hrun₀, hopened⟩ := crowded_opens
  have hall : ∀ n ≤ u16Max, ∃ es s, Trace (Step cluster) crowded es s ∧ Closed n s := by
    intro n
    induction n with
    | zero => exact fun _ => ⟨es₀, s₀, hrun₀, hopened.closed⟩
    | succ n ih =>
        intro hn
        obtain ⟨es, s, hrun, hclosed⟩ := ih (by omega)
        obtain ⟨e, s', hstep, hclosed'⟩ := hclosed.next (hn.trans (by decide))
        exact ⟨_, s', hrun.snoc hstep, hclosed'⟩
  exact hall _ le_rfl

/-! ## Past the close -/

/-- The vault closes, and its owner is rich enough for another. -/
theorem Closed.close {s : World} (h : Closed u16Max s) :
    ∃ s', exec cluster (.closeExecutedVault ⟨keeper, vault, .heartbeat vault, .execution vault, none,
        some alice⟩) s = .ok s' ∧
      s'.vaultConfigs vault = none ∧ s'.heartbeatRecords (.heartbeat vault) = none ∧
      s'.tokenDists = s.tokenDists ∧ 500_000_000 ≤ s'.lamports owner := by
  have hregular := h.reachable.sound.regular
  have hnoplan : PlanLoads s.fresh vault (Crowd.config 0) := fun hhas => by cases hhas
  have hdelay : log.startedAt + executedCloseDelay cluster.devnet ≤ s.fresh.now := by
    rw [fresh_now, h.now]
    decide
  have hlargest : beneficiaries[largestShareIndex beneficiaries]? = some ⟨alice, 6_000⟩ := by decide
  obtain ⟨s', hexec⟩ := closeExecutedVault_progress (b := ⟨alice, 6_000⟩) hregular.fresh
    (show keeper.canSign = true by rfl) ⟨h.config, h.log, rfl⟩ rfl h.record rfl rfl rfl rfl hnoplan
    (by decide) hdelay hlargest
  refine ⟨s', hexec, ?_⟩
  obtain ⟨v, l, p, -, hgate, -, -, hsettle⟩ := closeExecutedVault_ok hexec
  obtain rfl := Option.some.inj (h.config.symm.trans hgate.config)
  obtain ⟨recipient, s₁, -, rfl, heq⟩ := settleAndClose_ok hsettle
  rw [show (s.fresh.paySol vault recipient (s.fresh.lamports vault -
      cluster.minimumBalance VaultConfig.space) .solDust).closePlan (Crowd.config (u16Max - u16Max))
      vault keeper = s.fresh.paySol vault recipient (s.fresh.lamports vault -
      cluster.minimumBalance VaultConfig.space) .solDust from rfl] at heq
  rw [heq]
  refine ⟨?_, ?_, rfl, ?_⟩
  · simp [World.closePair]
  · simp [World.closePair]
  · -- The owner only gains.
    have hkey : owner ≠ .heartbeat vault ∧ owner ≠ .execution vault ∧ owner ≠ vault := by decide
    rw [putExecutionLog_lamports, sendLamports_lamports]
    refine le_trans ?_ (Ledger.le_move hkey.2.1)
    unfold World.closePair
    rw [putHeartbeatRecord_lamports, sendLamports_lamports, putVaultConfig_lamports,
      sendLamports_lamports, paySol_lamports]
    exact h.owner.trans ((Ledger.le_move hkey.2.2).trans ((Ledger.le_move hkey.2.2).trans
      (Ledger.le_move hkey.1)))

end Crowd

/-- The counter of a vault with 65536 open distributions is too small, and the vault closes
    while one of them is left. -/
theorem open_token_dists_saturates : ∃ s s' ctx v m,
    Reachable Sample.cluster s ∧ s.vaultConfigs Sample.vault = some v ∧
    (s.openDists Sample.owner).encard ≠ v.openTokenDists ∧ ctx.vaultConfig = Sample.vault ∧
    exec Sample.cluster (.closeExecutedVault ctx) s = .ok s' ∧
    (s'.tokenDists (.tokenDist Sample.vault m)).isSome = true := by
  obtain ⟨es, s, -, hclosed⟩ := Crowd.crowded_closes
  obtain ⟨s', hexec, -, -, hdists, -⟩ := hclosed.close
  have hleft := hclosed.unclosed u16Max le_rfl (by decide)
  refine ⟨s, s', _, _, Crowd.coin u16Max, hclosed.reachable, hclosed.config, fun hcount => ?_, rfl,
    hexec, by rw [hdists, hleft]; rfl⟩
  rw [Nat.sub_self, show (Crowd.config 0).openTokenDists = 0 from rfl, Nat.cast_zero,
    Set.encard_eq_zero] at hcount
  have hmem : Crowd.coin u16Max ∈ s.openDists Sample.owner := by
    change (s.tokenDists (.tokenDist Sample.vault (Crowd.coin u16Max))).isSome = true
    rw [hleft]
    rfl
  rw [hcount] at hmem
  exact hmem

/-- The distribution that was left outlives the vault, and its mask is none of the next vault at
    the same address. -/
theorem lifecycle_saturates : ∃ s v m d,
    Reachable Sample.cluster s ∧ s.vaultConfigs Sample.vault = some v ∧
    s.tokenDists (.tokenDist Sample.vault m) = some d ∧
    ¬ Bitmask.Sub d.paidMask (fullMaskU32 v.beneficiaries.length) := by
  obtain ⟨es, s, -, hclosed⟩ := Crowd.crowded_closes
  obtain ⟨s', hclose, hv, hh, hdists, howner⟩ := hclosed.close
  have hleft := hclosed.unclosed u16Max le_rfl (by decide)
  have hreach : Reachable Sample.cluster s' := hclosed.reachable.step (.executed hclose)
  have hfunds : max (Sample.cluster.minimumBalance VaultConfig.space) 1 +
      max (Sample.cluster.minimumBalance HeartbeatRecord.space) 1 + vaultCreationFeeLamports ≤
        500_000_000 := by decide
  let params : InitializeVaultParams :=
    ⟨Sample.agent, 86_400, 604_800, [⟨Sample.bob, 10_000⟩], true, 0⟩
  have hcreate : ∃ s'' v, initializeVault Sample.cluster ⟨Sample.owner, Sample.vault,
      .heartbeat Sample.vault, feeWallet⟩ params s'.fresh = .ok s'' ∧
      s''.vaultConfigs Sample.vault = some v ∧ v.beneficiaries = [⟨Sample.bob, 10_000⟩] ∧
      s''.tokenDists = s'.fresh.tokenDists :=
    initializeVault_progress hreach.sound.regular.fresh rfl hv hh (by decide) (by decide)
      (by decide) (by decide) (by decide) (by decide) (by decide) (hfunds.trans howner)
  obtain ⟨s'', v, hexec, hv', hbenef, hkeep⟩ := hcreate
  refine ⟨s'', v, Crowd.coin u16Max, Crowd.dist u16Max 3,
    hreach.step (.executed (i := .initializeVault _ _) hexec), hv', ?_, fun hsub => ?_⟩
  · rw [hkeep, fresh_tokenDists, hdists, hleft]
  · have hbit := hsub 1 (by decide)
    rw [hbenef] at hbit
    revert hbit
    decide

end DeadMansVault
