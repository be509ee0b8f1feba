-- SUMMARY: Concrete runs: worlds given by lists of accounts, and scripts of instructions played from them.
import DeadMansVault.Program.Footprint

/-!
# Scenarios

A `Genesis` lists the accounts of a world without any account of the program. A
script is a list of cues, each an instruction or a wait. When every cue of a
script is accepted, which evaluation decides, playing it is a run of the system.
-/

namespace DeadMansVault

open World

variable {c : Cluster} {s : World}

/-! ## The world before the first instruction -/

structure Genesis where
  lamports : List (Pubkey × Nat)
  tokens : List (Pubkey × TokenAccount × Nat)
  mints : List Pubkey

def Genesis.world (g : Genesis) : World where
  now := 0
  lamports := Ledger.ofList g.lamports
  vaultConfigs _ := none
  heartbeatRecords _ := none
  assetPlans _ := none
  executionLogs _ := none
  tokenDists _ := none
  tokenAccounts k := (g.tokens.find? fun entry => entry.1 = k).map fun entry => entry.2.1
  tokenAmounts := Ledger.ofList (g.tokens.map fun entry => (entry.1, entry.2.2))
  withheldFees _ := 0
  mints k := if k ∈ g.mints then some ⟨6⟩ else none
  moved := []

/-- A token account at an associated address of a vault is as derived. -/
def TokenAccount.derived (k : Pubkey) (account : TokenAccount) : Bool :=
  match k with
  | .associatedToken (.vault owner) mint program =>
    account = ⟨some program, mint, .vault owner⟩
  | _ => true

def Genesis.consistent (g : Genesis) : Bool :=
  (g.lamports.map Prod.snd).sum ≤ u64Max && (g.tokens.map fun entry => entry.2.2).sum ≤ u64Max &&
    (g.tokens.all fun entry => entry.2.1.derived entry.1) && decide (.default ∉ g.mints)

theorem Genesis.initial {g : Genesis} (h : g.consistent = true) : Initial c g.world := by
  simp only [consistent, Bool.and_eq_true, decide_eq_true_eq, List.all_eq_true] at h
  obtain ⟨⟨⟨hlamports, htokens⟩, hderived⟩, hmints⟩ := h
  have hamounts : Ledger.Bounded g.world.tokenAmounts u64Max :=
    (Ledger.bounded_ofList _).weaken (by simpa [Function.comp_def] using htokens)
  have hclock : i64Min ≤ 0 ∧ 0 ≤ i64Max := by decide
  refine ⟨⟨hclock, (Ledger.bounded_ofList _).weaken hlamports, fun mint => ?_,
    fun k hk => ?_, fun owner mint program account hacc => ?_, by simp [world, hmints]⟩,
    fun _ => rfl, fun _ => rfl, fun _ => rfl, fun _ => rfl, fun _ => rfl⟩
  · refine hamounts.mono fun k => ?_
    unfold World.mintLedger
    split
    · split <;> omega
    · omega
  · have hnone : ∀ entry ∈ g.tokens, entry.1 ≠ k := by simpa [world] using hk
    refine Ledger.ofList_of_notMem fun entry hentry => ?_
    obtain ⟨entry', hmem, rfl⟩ := List.mem_map.mp hentry
    exact hnone entry' hmem
  · simp only [world, Option.map_eq_some_iff] at hacc
    obtain ⟨entry, hfind, rfl⟩ := hacc
    have hkey := List.find?_some hfind
    have hd := hderived entry (List.mem_of_find?_eq_some hfind)
    rw [of_decide_eq_true hkey] at hd
    simpa [TokenAccount.derived] using hd

/-! ## Scripts -/

inductive Cue
  | run (i : Instruction)
  | wait (seconds : Nat)

/-- The world after a cue that is accepted. -/
def World.cue (c : Cluster) (s : World) : Cue → World
  | .run i => match exec c i s with
    | .ok s' => s'
    | .error _ => s
  | .wait seconds => { s with now := s.now + seconds }

def World.event (c : Cluster) (s : World) : Cue → Event
  | .run i => .executed i (s.cue c (.run i)).moved
  | .wait _ => .environment

def World.accepts (c : Cluster) (s : World) : Cue → Bool
  | .run i => (exec c i s).isOk
  | .wait seconds => s.now + seconds ≤ i64Max

def World.play (c : Cluster) (s : World) (cues : List Cue) : World :=
  cues.foldl (World.cue c) s

def World.events (c : Cluster) (s : World) : List Cue → List Event
  | [] => []
  | cue :: rest => s.event c cue :: (s.cue c cue).events c rest

/-- Every cue of the script is accepted, at a step that passes the check `q`. -/
def World.plays (c : Cluster) (q : World → Event → World → Bool) (s : World) : List Cue → Bool
  | [] => true
  | cue :: rest => s.accepts c cue && q s (s.event c cue) (s.cue c cue) && (s.cue c cue).plays c q rest

/-- Time passes. -/
theorem World.Regular.wait (h : s.Regular c) {seconds : Nat} (hfit : s.now + seconds ≤ i64Max) :
    Environment c s { s with now := s.now + seconds } where
  regular := ⟨⟨h.clock.1.trans (Int.le_add_of_nonneg_right (Int.natCast_nonneg _)), hfit⟩,
    h.lamportSupply, h.tokenSupply, h.vacant, h.vaultAtas, h.defaultMint⟩
  clock := Int.le_add_of_nonneg_right (Int.natCast_nonneg _)
  vaultConfigs := rfl
  heartbeatRecords := rfl
  assetPlans := rfl
  executionLogs := rfl
  tokenDists := rfl
  lamports _ _ := le_rfl
  vaultTokens _ _ _ h _ _ := ⟨h, le_rfl⟩

/-- Someone who is not a vault moves tokens into the associated account of a vault,
    which is created if it is not there. -/
def World.deposit (c : Cluster) (s : World) (source owner mint : Pubkey) (n : Nat) : World :=
  let ata := canonicalAta c (.vault owner) mint
  { s with
    tokenAccounts := Function.update s.tokenAccounts ata
      (some ⟨some (c.tokenProgram mint), mint, .vault owner⟩)
    tokenAmounts := Ledger.move s.tokenAmounts source ata n }

theorem World.Regular.deposit (h : s.Regular c) {source owner mint wallet : Pubkey} {n : Nat}
    (hsource : s.tokenAccounts source = some ⟨some (c.tokenProgram mint), mint, wallet⟩)
    (hwallet : ∀ o, wallet ≠ .vault o) (hn : n ≤ s.tokenAmounts source) :
    Environment c s (s.deposit c source owner mint n) := by
  set ata := canonicalAta c (.vault owner) mint with hat
  have hthere : ∀ account, s.tokenAccounts ata = some account →
      account = ⟨some (c.tokenProgram mint), mint, .vault owner⟩ :=
    fun account hacc => h.vaultAtas owner mint _ account hacc
  have hne : source ≠ ata := by
    intro heq
    rw [heq] at hsource
    exact hwallet owner (congrArg TokenAccount.owner (hthere _ hsource))
  have hother : ∀ k, k ≠ ata → (s.deposit c source owner mint n).tokenAccounts k =
      s.tokenAccounts k := fun k hk => Function.update_of_ne hk _ _
  have hsame : ∀ k, k ≠ ata → k ≠ source → (s.deposit c source owner mint n).tokenAmounts k =
      s.tokenAmounts k := fun k hk hk' => Ledger.move_of_ne hk' hk
  have hata : s.tokenAmounts ata ≤ s.mintLedger c mint ata := by
    unfold World.mintLedger
    cases hacc : s.tokenAccounts ata with
    | none => exact (h.vacant _ hacc).le
    | some account =>
        obtain rfl := hthere _ hacc
        simp
  have hledger : s.mintLedger c mint source = s.tokenAmounts source := by
    simp [World.mintLedger, hsource]
  refine ⟨⟨h.clock, h.lamportSupply, fun mint' => ?_, fun k hk => ?_, ?_, h.defaultMint⟩, le_rfl,
    rfl, rfl, rfl, rfl, rfl, fun _ _ => le_rfl, ?_⟩
  · -- The ledger of the mint moves with the tokens; that of any other stays.
    by_cases hm : mint' = mint
    · subst hm
      refine ((h.tokenSupply mint').move (b := ata) (hledger ▸ hn)).mono fun k => ?_
      by_cases hk : k = ata
      · subst hk
        simp only [World.mintLedger, World.deposit, ← hat, Function.update_self, and_self, if_true,
          Ledger.move_dest hne.symm]
        exact Nat.add_le_add_right hata _
      · by_cases hk' : k = source
        · subst hk'
          simp only [World.mintLedger, hother k hk, hsource, and_self, if_true,
            Ledger.move_source hne]
          simp [World.deposit, ← hat, Ledger.move_source hne]
        · rw [Ledger.move_of_ne hk' hk, World.mintLedger, hother k hk, hsame k hk hk']
          rfl
    · refine (h.tokenSupply mint').mono fun k => ?_
      by_cases hk : k = ata
      · subst hk
        simp [World.mintLedger, World.deposit, ← hat, Ne.symm hm]
      · by_cases hk' : k = source
        · subst hk'
          simp [World.mintLedger, hother k hk, hsource, Ne.symm hm]
        · rw [World.mintLedger, hother k hk, hsame k hk hk']
          rfl
  · have hk' : k ≠ ata := by
      rintro rfl
      simp [World.deposit, ← hat] at hk
    rw [hother k hk'] at hk
    rw [hsame k hk' (by rintro rfl; simp [hsource] at hk)]
    exact h.vacant k hk
  · intro owner' mint' program account hacc
    by_cases hk : Pubkey.associatedToken (.vault owner') mint' program = ata
    · rw [hk] at hacc
      simp only [World.deposit, ← hat, Function.update_self, Option.some.injEq] at hacc
      simp only [hat, canonicalAta, Pubkey.associatedToken.injEq, Pubkey.vault.injEq] at hk
      rw [← hacc, hk.1, hk.2.1, hk.2.2]
    · exact h.vaultAtas owner' mint' program account (hother _ hk ▸ hacc)
  · intro k account owner' hacc _ howner
    have hk' : k ≠ source := by
      rintro rfl
      rw [hsource, Option.some.injEq] at hacc
      exact hwallet owner' (by rw [← howner, ← hacc])
    refine ⟨?_, Ledger.le_move hk'⟩
    by_cases hk : k = ata
    · subst hk
      rw [hthere _ hacc]
      simp [World.deposit, ← hat]
    · rw [hother k hk]
      exact hacc

theorem exec_cue {i : Instruction} (h : s.accepts c (.run i) = true) :
    exec c i s = .ok (s.cue c (.run i)) := by
  unfold World.accepts at h
  cases hexec : exec c i s with
  | error e => simp [hexec, Except.isOk, Except.toBool] at h
  | ok s' => simp only [World.cue, hexec]

theorem exec_refused {i : Instruction} (h : s.accepts c (.run i) = false) :
    ∃ e, exec c i s = .error e := by
  unfold World.accepts at h
  cases hexec : exec c i s with
  | error e => exact ⟨e, rfl⟩
  | ok s' => simp [hexec, Except.isOk, Except.toBool] at h

theorem World.Regular.cue (hs : s.Regular c) {cue : Cue} (h : s.accepts c cue = true) :
    Step c s (s.event c cue) (s.cue c cue) := by
  cases cue with
  | run i => exact .executed (exec_cue h)
  | wait seconds => exact .environment (hs.wait (of_decide_eq_true h))

/-- Playing a script whose cues are all accepted is a run. -/
theorem World.Sound.play {q : World → Event → World → Bool} {cues : List Cue} (hs : s.Sound c)
    (h : s.plays c q cues = true) :
    Trace (fun s e s' => Step c s e s' ∧ q s e s' = true) s (s.events c cues)
      (s.play c cues) := by
  induction cues generalizing s with
  | nil => exact .nil s
  | cons cue rest ih =>
      simp only [plays, Bool.and_eq_true] at h
      obtain ⟨⟨hcue, hq⟩, hrest⟩ := h
      have hstep := hs.regular.cue hcue
      exact .cons ⟨hstep, hq⟩ (ih (hs.step hstep) hrest)

/-- No script creates a token account. -/
theorem World.Sound.play_tokenAccounts {q : World → Event → World → Bool} {cues : List Cue}
    (hs : s.Sound c) (h : s.plays c q cues = true) {k : Pubkey} {account : TokenAccount}
    (hacc : (s.play c cues).tokenAccounts k = some account) :
    s.tokenAccounts k = some account := by
  induction cues generalizing s with
  | nil => exact hacc
  | cons cue rest ih =>
      simp only [plays, Bool.and_eq_true] at h
      obtain ⟨⟨hcue, -⟩, hrest⟩ := h
      have hnext := ih (hs.step (hs.regular.cue hcue)) hrest hacc
      cases cue with
      | run i => exact (exec_confined hs.regular (exec_cue hcue)).tokenAccounts k account hnext
      | wait seconds => exact hnext

/-- Nor does it change a mint. -/
theorem World.Sound.play_mints {q : World → Event → World → Bool} {cues : List Cue}
    (hs : s.Sound c) (h : s.plays c q cues = true) : (s.play c cues).mints = s.mints := by
  induction cues generalizing s with
  | nil => rfl
  | cons cue rest ih =>
      simp only [plays, Bool.and_eq_true] at h
      obtain ⟨⟨hcue, -⟩, hrest⟩ := h
      refine (ih (hs.step (hs.regular.cue hcue)) hrest).trans ?_
      cases cue with
      | run i => exact (exec_confined hs.regular (exec_cue hcue)).mints
      | wait seconds => rfl

/-- Every step passes. -/
def noCheck : World → Event → World → Bool := fun _ _ _ => true

theorem Genesis.reachable {g : Genesis} {cues : List Cue} (hg : g.consistent = true)
    (h : g.world.plays c noCheck cues = true) : Reachable c (g.world.play c cues) :=
  (Reachable.initial (initial hg)).trace
    (((Reachable.initial (initial hg)).sound.play h).mono fun _ _ _ hstep => hstep.1)

/-! ## A vault with two beneficiaries -/

namespace Sample

/-- The main network, on which every mint is one of the first token program. -/
def cluster : Cluster where
  devnet := false
  minimumBalance space := (128 + space) * 6960
  tokenProgram _ := .token

def owner : Pubkey := .key 1
def agent : Pubkey := .key 2
def alice : Pubkey := .key 3
def bob : Pubkey := .key 4
def keeper : Pubkey := .key 5
def gold : Pubkey := .key 6
def silver : Pubkey := .key 7

def vault : Pubkey := .vault owner
def ata (wallet : Pubkey) : Pubkey := .associatedToken wallet gold .token

def genesis : Genesis where
  lamports := [(owner, 1_000_000_000), (keeper, 1_000_000_000), (vault, 500_000_000)]
  tokens := [(ata vault, ⟨some .token, gold, vault⟩, 101),
    (ata alice, ⟨some .token, gold, alice⟩, 0), (ata bob, ⟨some .token, gold, bob⟩, 0)]
  mints := [gold, silver]

def initializeVault (beneficiaries : List Beneficiary) : Instruction :=
  .initializeVault ⟨owner, vault, .heartbeat vault, feeWallet⟩
    ⟨agent, 86_400, 604_800, beneficiaries, true, 1_000⟩

/-- Someone else sets up a vault of their own. -/
def strangerVault : Instruction :=
  .initializeVault ⟨keeper, .vault keeper, .heartbeat (.vault keeper), feeWallet⟩
    ⟨agent, 86_400, 604_800, [⟨bob, 10_000⟩], true, 0⟩

def setAssetPlan (assignments : List AssetAssignment) : Cue :=
  .run (.setAssetPlan ⟨owner, vault, .heartbeat vault, .assetPlan vault, [gold]⟩ assignments)

def beginExecution : BeginExecution :=
  ⟨keeper, vault, .heartbeat vault, .execution vault, some (.assetPlan vault)⟩

def executeSolShares (wallets : List Pubkey) (indices : List Nat) : Cue :=
  .run (.executeSolShares ⟨keeper, vault, .execution vault, wallets.map (⟨·, true⟩)⟩ indices)

def executeSpecificSol (beneficiary : Pubkey) (j : Nat) : Cue :=
  .run (.executeSpecificSol ⟨keeper, vault, .execution vault, .assetPlan vault, beneficiary⟩ j)

def beginTokenDist : BeginTokenDist :=
  ⟨keeper, vault, .execution vault, gold, ata vault, some (.assetPlan vault),
    .tokenDist vault gold⟩

def executeSpecificAsset (beneficiary : Pubkey) (j : Nat) : Cue :=
  .run (.executeSpecificAsset ⟨keeper, vault, .execution vault, .assetPlan vault, gold,
    .tokenDist vault gold, ata vault, ata beneficiary, .token⟩ j)

def executeTokenShares (wallets : List Pubkey) (indices : List Nat) : Cue :=
  .run (.executeTokenShares ⟨keeper, vault, .tokenDist vault gold, gold, ata vault, .token,
    wallets.map (⟨ata ·, true⟩)⟩ indices)

def finalizeExecution : FinalizeExecution :=
  ⟨keeper, vault, .execution vault, some (.assetPlan vault)⟩

def closeTokenDist : CloseTokenDist :=
  ⟨keeper, owner, vault, gold, ata vault, .tokenDist vault gold, some (ata alice), .token⟩

/-- The estate: 60% to one beneficiary and 40% to the other, with one bequest of SOL
    and one of tokens. -/
def beneficiaries : List Beneficiary := [⟨alice, 6_000⟩, ⟨bob, 4_000⟩]
def assignments : List AssetAssignment := [⟨.default, 500, 1, false⟩, ⟨gold, 30, 0, false⟩]

/-- Up to the moment at which the vault may be executed. -/
def setup : List Cue :=
  [.run (initializeVault beneficiaries), setAssetPlan assignments, .wait 691_200]

/-- The world at the deadline. -/
def due : World := genesis.world.play cluster setup

/-- The heartbeat record of the vault, from its creation. -/
def heartbeat : HeartbeatRecord := ⟨vault, 0, .activeTap, 1⟩

/-- The config of the vault at the deadline. -/
def config : VaultConfig where
  owner := owner
  agentPubkey := agent
  heartbeatInterval := 86_400
  gracePeriod := 604_800
  beneficiaries := beneficiaries
  executed := false
  active := true
  createdAt := 0
  updatedAt := 0
  isMutable := true
  hasAssetPlan := true
  openTokenDists := 0
  keeperBounty := 1_000

/-- What evaluation says of the world at the deadline, in one go. -/
theorem due_evaluates :
    (genesis.consistent = true ∧ genesis.world.plays cluster noCheck setup = true) ∧
    due.heartbeatRecords (.heartbeat vault) = some heartbeat ∧
    due.vaultConfigs vault = some config ∧
    assignments = (due.assetPlans (.assetPlan vault)).elim [] (·.assignments) ∧
    due.accepts cluster (.run (.beginExecution beginExecution)) = true := by
  decide +kernel

theorem genesis_consistent : genesis.consistent = true := due_evaluates.1.1

theorem due_reachable : Reachable cluster due :=
  Genesis.reachable genesis_consistent due_evaluates.1.2

theorem due_heartbeat : due.heartbeatRecords (.heartbeat vault) = some heartbeat :=
  due_evaluates.2.1

theorem due_config : due.vaultConfigs vault = some config := due_evaluates.2.2.1

theorem due_plan : assignments = (due.assetPlans (.assetPlan vault)).elim [] (·.assignments) :=
  due_evaluates.2.2.2.1

/-- The world in which the execution has begun. -/
def begun : World := due.cue cluster (.run (.beginExecution beginExecution))

theorem due_begun : exec cluster (.beginExecution beginExecution) due = .ok begun :=
  exec_cue due_evaluates.2.2.2.2

theorem begun_reachable : Reachable cluster begun :=
  due_reachable.step (.executed due_begun)

/-- The payouts before the finalize, in an order of the caller's choice and some of
    them tried twice. -/
def payouts : List Cue := [
  executeSolShares [bob, bob] [1, 1],
  .run (.beginTokenDist beginTokenDist),
  executeSpecificSol bob 0,
  executeSpecificAsset alice 1,
  executeSolShares [alice] [0]]

/-- From the begin to the finalize and the close of the only distribution. -/
def settlement : List Cue :=
  .run (.beginExecution beginExecution) :: payouts ++ [
    executeTokenShares [alice, bob] [0, 1],
    .run (.finalizeExecution finalizeExecution),
    .run (.closeTokenDist closeTokenDist)]

/-- The world in which everything is paid out and only the core accounts are left. -/
def settled : World := due.play cluster settlement

theorem settled_evaluates :
    due.plays cluster noCheck settlement = true ∧
    settled.vaultConfigs vault = some { config with executed := true, active := false } ∧
    settled.tokenAmounts (canonicalAta cluster vault gold) = 0 := by
  decide +kernel

theorem settled_plays : due.plays cluster noCheck settlement = true := settled_evaluates.1

theorem settled_reachable : Reachable cluster settled :=
  due_reachable.trace ((due_reachable.sound.play settled_plays).mono fun _ _ _ hstep => hstep.1)

theorem settled_config :
    settled.vaultConfigs vault = some { config with executed := true, active := false } :=
  settled_evaluates.2.1

/-- Then the vault holds no tokens of any mint. -/
theorem settled_empty (m : Pubkey) : settled.tokenAmounts (canonicalAta cluster vault m) = 0 := by
  by_cases hm : m = gold
  · subst hm
    exact settled_evaluates.2.2
  · refine settled_reachable.sound.regular.vacant _ (Option.eq_none_iff_forall_ne_some.mpr ?_)
    intro account hacc
    have hgenesis := (Reachable.initial (Genesis.initial (c := cluster) genesis_consistent)).sound
    have hdue := due_reachable.sound.play_tokenAccounts settled_plays hacc
    have hlisted := hgenesis.play_tokenAccounts due_evaluates.1.2 hdue
    simp [Genesis.world, genesis, canonicalAta, ata, cluster, Ne.symm hm] at hlisted

/-- The world after the distribution of the bequeathed mint is opened once more. -/
def reopened : World := settled.cue cluster (.run (.beginTokenDist beginTokenDist))

theorem settled_reopened : exec cluster (.beginTokenDist beginTokenDist) settled = .ok reopened :=
  exec_cue (by decide +kernel)

/-- The payouts from the distribution of the mint, around the finalize. -/
def tokenPayouts : List Cue := [
  executeTokenShares [bob, bob] [1, 1],
  executeSpecificSol bob 0,
  executeSpecificAsset alice 1,
  executeSolShares [alice] [0],
  .run (.finalizeExecution finalizeExecution),
  executeTokenShares [alice] [0]]

end Sample

end DeadMansVault
