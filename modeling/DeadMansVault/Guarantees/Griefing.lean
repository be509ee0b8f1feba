-- SUMMARY: A third party's token account in the vault's name, and the passes that it stops.
import DeadMansVault.Guarantees.Passes

/-!
# Griefing

The cranks select what the vault owns in any token account, and the program opens a
distribution for what the associated account holds. An account elsewhere that is made over to
the vault is therefore selected and cannot be opened, and a pass that gives up on a mint does
not finalize.
-/

namespace DeadMansVault

open Crank Script World

variable {c : Cluster} {node : Node} {o payer : Pubkey} {v : VaultConfig} {s : World}

/-! ## Making an account over -/

/-- The owner of a token account sets the vault as its owner (`SetAuthority`). -/
def World.handOver (s : World) (k : Pubkey) (account : TokenAccount) (o : Pubkey) : World :=
  s.putTokenAccounts (Function.update s.tokenAccounts k (some { account with owner := .vault o }))

theorem handOver_self (k : Pubkey) (account : TokenAccount) (o : Pubkey) :
    (s.handOver k account o).tokenAccounts k = some { account with owner := .vault o } :=
  Function.update_self ..

theorem handOver_of_ne {k k' : Pubkey} (h : k' ≠ k) (account : TokenAccount) (o : Pubkey) :
    (s.handOver k account o).tokenAccounts k' = s.tokenAccounts k' :=
  Function.update_of_ne h ..

/-- An account that is no vault's is not the associated account of one. -/
theorem ne_vaultAta (hs : s.Regular c) {k : Pubkey} {account : TokenAccount}
    (hk : s.tokenAccounts k = some account) (howner : ∀ o', account.owner ≠ .vault o')
    (o mint : Pubkey) (program : TokenProgram) :
    Pubkey.associatedToken (.vault o) mint program ≠ k := by
  rintro rfl
  exact howner o (congrArg TokenAccount.owner (hs.vaultAtas o mint program account hk))

/-- Anyone can make over an account of their own. -/
theorem handOver_environment (hs : s.Regular c) {k : Pubkey} {account : TokenAccount}
    (hk : s.tokenAccounts k = some account) (howner : ∀ o', account.owner ≠ .vault o')
    (o : Pubkey) : Environment c s (s.handOver k account o) := by
  have hledger : ∀ mint, (s.handOver k account o).mintLedger c mint = s.mintLedger c mint := by
    intro mint
    funext k'
    unfold World.mintLedger
    by_cases hkey : k' = k
    · subst hkey
      rw [handOver_self, hk]
      rfl
    · rw [handOver_of_ne hkey]
      rfl
  have hregular : (s.handOver k account o).Regular c := by
    refine ⟨hs.clock, hs.lamportSupply, fun mint => ?_, fun k' hnone => ?_,
      fun owner mint program a ha => ?_, hs.defaultMint⟩
    · rw [hledger]
      exact hs.tokenSupply mint
    · refine hs.vacant k' ?_
      by_cases hkey : k' = k
      · subst hkey
        rw [handOver_self] at hnone
        cases hnone
      · rwa [handOver_of_ne hkey] at hnone
    · rw [handOver_of_ne (ne_vaultAta hs hk howner owner mint program)] at ha
      exact hs.vaultAtas owner mint program a ha
  refine ⟨hregular, le_rfl, rfl, rfl, rfl, rfl, rfl, fun _ _ => le_rfl, ?_⟩
  intro k' a owner ha _ hvault
  refine ⟨?_, le_rfl⟩
  by_cases hkey : k' = k
  · subst hkey
    obtain rfl := Option.some.inj (hk.symm.trans ha)
    exact absurd hvault (howner owner)
  · rwa [handOver_of_ne hkey]

/-! ## What is listed is selected -/

/-- A listed account counts towards its mint. -/
theorem le_balance {keys : List Pubkey} {f : Pubkey → Option (Pubkey × Nat)} {k m : Pubkey}
    {n : Nat} (hk : k ∈ keys) (hf : f k = some (m, n)) : n ≤ balance (keys.filterMap f) m :=
  List.le_sum_of_mem (List.mem_map.mpr ⟨(m, n), List.mem_filter.mpr
    ⟨List.mem_filterMap.mpr ⟨k, hk, hf⟩, decide_eq_true rfl⟩, rfl⟩)

/-- What the vault owns in a listed account counts towards the mint. -/
theorem Node.listed_le_holding {w : World} {vault k : Pubkey} {program : TokenProgram}
    {account : TokenAccount} (hlisted : k ∈ node.accounts w vault program)
    (hk : w.tokenAccounts k = some account) (hprogram : account.program = some program)
    (howner : account.owner = vault) :
    w.tokenAmounts k ≤ node.holding w vault account.mint := by
  have hbalance : w.tokenAmounts k ≤ balance (node.held w vault program) account.mint := by
    refine le_balance hlisted ?_
    rw [hk, Option.bind_some, if_pos ⟨howner, hprogram⟩]
  unfold Node.holding
  cases program with
  | token => exact hbalance.trans (Nat.le_add_right _ _)
  | token2022 => exact hbalance.trans (Nat.le_add_left _ _)

/-- A mint is selected where there is room, or where it takes the place of a smaller one. -/
theorem Node.selected_of_holding {w : World} {m : Pubkey} {n : Nat}
    (hplan : ¬ Planned (w.assetPlans (.assetPlan (.vault o))) m)
    (hpos : 0 < n) (hheld : n ≤ node.holding w (.vault o) m)
    (hroom : (node.selected c o w).length < maxAutoMints ∨
      ∃ m' ∈ (node.selected c o w).map (·.1),
        ¬ Planned (w.assetPlans (.assetPlan (.vault o))) m' ∧ node.holding w (.vault o) m' < n) :
    ∃ entry ∈ node.selected c o w, entry.1 = m := by
  have hselected := node.selection_selected (c := c) w (.vault o)
    (w.assetPlans (.assetPlan (.vault o)))
  refine List.mem_map.mp (Classical.byContradiction fun hout => ?_)
  obtain ⟨hfull, hlargest⟩ := hselected.largest m hplan (hpos.trans_le hheld) hout
  rcases hroom with hroom | ⟨m', hm', hplan', hsmall⟩
  · exact absurd hfull (Nat.not_le.mpr hroom)
  · exact absurd (hheld.trans (hlargest m' hm' hplan')) (Nat.not_le.mpr hsmall)

/-- A selected mint that is not planned, has no distribution and is not in the associated
    account is in the way of the pass. -/
theorem not_unhindered {w : World} {entry : Pubkey × ProgramId}
    (hentry : entry ∈ node.selected c o w)
    (hplan : ∀ a ∈ (w.estate c o).assignments, a.mint ≠ entry.1)
    (hnone : w.tokenDists (.tokenDist (.vault o) entry.1) = none)
    (hempty : w.tokenAmounts (canonicalAta c (.vault o) entry.1) = 0) :
    ¬ Unhindered c node payer o w := by
  intro hfree
  obtain ⟨-, -, hheld | ⟨a, ha, hmint⟩⟩ := hfree.distributable entry
    (List.mem_filter.mpr ⟨hentry, by rw [hnone]; rfl⟩)
  · exact absurd hempty (Nat.pos_iff_ne_zero.mp hheld)
  · exact hplan a ha hmint

/-- **One account is enough.** Of a mint that the plan does not name, that has no distribution
    and that the vault's associated account does not hold, anyone who holds some can make it
    over to the vault in an account of their own. Where that account is listed and the selection
    has room for the mint, no pass of either crank executes the vault from then on. -/
theorem stray_account_blocks (node : Node) (payer : Pubkey) {k : Pubkey} {program : TokenProgram}
    {account : TokenAccount} (hs : Reachable c s) (hv : s.vaultConfigs (.vault o) = some v)
    (hopen : v.executed = false) (hsign : payer.canSign = true)
    (hk : s.tokenAccounts k = some account) (hprogram : account.program = some program)
    (howner : ∀ o', account.owner ≠ .vault o') (hamount : 0 < s.tokenAmounts k)
    (hplan : ∀ a ∈ (s.estate c o).assignments, a.mint ≠ account.mint)
    (hnone : s.tokenDists (.tokenDist (.vault o) account.mint) = none)
    (hempty : s.tokenAmounts (canonicalAta c (.vault o) account.mint) = 0) :
    let s' := s.handOver k account o
    let w := afterBegin c payer o v s'
    Environment c s s' ∧
    (k ∈ node.accounts w (.vault o) program →
      ((node.selected c o w).length < maxAutoMints ∨
        ∃ m ∈ (node.selected c o w).map (·.1),
          ¬ Planned (w.assetPlans (.assetPlan (.vault o))) m ∧
            node.holding w (.vault o) m < s.tokenAmounts k) →
      ¬ Executed o (final (crankVault (node.client c) payer (.vault o) v permitted ⟨s', []⟩)).net ∧
      ¬ Executed o
        (final (runExecutorInner (node.client c) payer (.vault o) permitted ⟨s', []⟩)).net) := by
  intro s' w
  have henv := handOver_environment hs.sound.regular hk howner o
  refine ⟨henv, fun hlisted hroom => ?_⟩
  have hs' : Reachable c s' := hs.step (.environment henv)
  have hv' : s'.vaultConfigs (.vault o) = some v := hv
  have hsame : SameButLog s' w := sameButLog_afterBegin c payer o v s'
  have hassign : (w.estate c o).assignments = (s.estate c o).assignments := by
    unfold Estate.assignments World.estate
    dsimp only
    rw [hsame.assetPlans]
    rfl
  have hthere : w.tokenAccounts k = some { account with owner := .vault o } := by
    rw [hsame.tokenAccounts]
    exact handOver_self ..
  have hamounts : w.tokenAmounts = s.tokenAmounts := hsame.tokenAmounts
  have hblocked : ¬ Crankable c node payer o v s' := by
    intro hcrankable
    have hunplanned : ¬ Planned (w.assetPlans (.assetPlan (.vault o))) account.mint := by
      rintro ⟨-, a, ha, hmint⟩
      exact hplan a (hassign ▸ ha) hmint
    have hheld := Node.listed_le_holding hlisted hthere hprogram rfl
    rw [hamounts] at hheld
    obtain ⟨entry, hentry, heq⟩ := Node.selected_of_holding hunplanned hamount hheld hroom
    refine not_unhindered hentry ?_ ?_ ?_ hcrankable.unhindered
    · rw [hassign, heq]
      exact hplan
    · rw [hsame.tokenDists, heq]
      exact hnone
    · rw [hamounts, heq]
      exact hempty
  obtain ⟨hb, hh⟩ : ∃ hb, s'.heartbeatRecords (.heartbeat (.vault o)) = some hb := by
    have hpair := (hs'.lawful o).pair
    rw [show (s'.estate c o).config = some v from hv'] at hpair
    exact Option.isSome_iff_exists.mp hpair.symm
  exact ⟨fun h => hblocked ((crankVault_executes_iff hs' hv' hopen hsign rfl).mp h).1,
    fun h => hblocked ((runExecutorInner_executes_iff hs' hv' hopen hh hsign rfl).mp h).2.1⟩

/-! ## The sample vault -/

namespace Sample

/-- The keeper's own account of another mint. -/
def spare : TokenAccount := ⟨some .token, silver, keeper⟩

/-- The sample, with that account. -/
def crowded : Genesis := { genesis with tokens := (.key 9, spare, 5) :: genesis.tokens }

def crowdedDue : World := crowded.world.play cluster setup

def made : World := crowdedDue.handOver (.key 9) spare owner

/-- A node that lists the account as well. -/
def openNode : Node := { quietNode with accounts := fun _ owner _ => [ata owner, .key 9] }

theorem crowdedDue_evaluates :
    (crowded.consistent = true ∧ crowded.world.plays cluster noCheck setup = true) ∧
    crowdedDue.vaultConfigs vault = some config ∧
    assignments = (crowdedDue.estate cluster owner).assignments ∧
    crowdedDue.tokenAccounts (.key 9) = some spare ∧
    0 < crowdedDue.tokenAmounts (.key 9) ∧
    crowdedDue.tokenDists (.tokenDist vault silver) = none ∧
    crowdedDue.tokenAmounts (canonicalAta cluster vault silver) = 0 ∧
    (openNode.selected cluster owner (afterBegin cluster keeper owner config made)).length <
      maxAutoMints := by
  decide +kernel

end Sample

/-- Once the keeper has made its own account over to the sample vault, no pass executes it. -/
theorem stray_account_blocks_sample :
    ¬ Executed Sample.owner (final (crankVault (Sample.openNode.client Sample.cluster)
      Sample.keeper Sample.vault Sample.config permitted ⟨Sample.made, []⟩)).net ∧
    ¬ Executed Sample.owner (final (runExecutorInner (Sample.openNode.client Sample.cluster)
      Sample.keeper Sample.vault permitted ⟨Sample.made, []⟩)).net := by
  obtain ⟨⟨hgenesis, hplays⟩, hconfig, hassign, hthere, hamount, hnone, hempty, hroom⟩ :=
    Sample.crowdedDue_evaluates
  refine (stray_account_blocks Sample.openNode Sample.keeper (Genesis.reachable hgenesis hplays)
    hconfig rfl rfl hthere rfl (fun _ => ?_) hamount (fun a ha => ?_) hnone hempty).2
    (List.mem_cons_of_mem _ (List.mem_singleton_self _)) (.inl hroom)
  · exact Pubkey.noConfusion
  · have hlisted : a ∈ Sample.assignments := hassign.symm ▸ ha
    clear ha
    revert a
    decide

end DeadMansVault
