-- SUMMARY: The owner's exit against a node: what is read, what is built from it, and how it is sent.
import DeadMansVault.Automation.Fulfilment
import DeadMansVault.Device.Revoke
import DeadMansVault.Program.Exits

/-!
# Exits on the node

Against a node the transactions of an exit are a function of the world. A transaction lands with
all of its instructions or with none, and the wallet signs whatever it is shown.
-/

namespace DeadMansVault

/-- A transfer of lamports between wallets. -/
@[simps] def World.give (s : World) (source dest : Pubkey) (n : Nat) : World :=
  { s with lamports := Ledger.move s.lamports source dest n }

namespace Device

open Crank Script World RevokeEnv

variable {c : Cluster} {node : Node} {s s' : World} {owner : Pubkey} {v : VaultConfig}

/-! ## Transactions -/

/-- The world after the transaction, if each of its instructions is accepted. -/
def landsAll (c : Cluster) (s : World) (tx : Transaction) : Option World :=
  tx.foldlM (fun s ix => ix.lands c s) s

@[simp] theorem landsAll_nil : landsAll c s [] = some s := rfl

theorem landsAll_cons (ix : Submission) (tx : Transaction) :
    landsAll c s (ix :: tx) = (ix.lands c s).bind fun s' => landsAll c s' tx := by
  unfold landsAll
  rw [List.foldlM_cons]
  rfl

theorem landsAll_append (tx tx' : Transaction) :
    landsAll c s (tx ++ tx') = (landsAll c s tx).bind fun s' => landsAll c s' tx' := by
  unfold landsAll
  rw [List.foldlM_append]
  rfl

/-! ## The device -/

/-- What the device has of its own. -/
structure Handset where
  /-- The agent's key, if it is on this device. -/
  agent : Option Pubkey
  refusal : Transaction → JsError
  toBase58 : Pubkey → String

/-- What the app calls, answered from the chain. Here the chain is the whole state, so the key and
    the stores of the device leave no trace in it. -/
def revokeEnv (c : Cluster) (node : Node) (handset : Handset) : RevokeEnv World where
  client := node.client c
  getOnChainDeadline owner s :=
    ((s.vaultConfigs (.vault owner)).bind fun v =>
      (s.heartbeatRecords (.heartbeat (.vault owner))).map v.deadlineAt, s)
  blockTime s := (.ok (some s.now), s)
  signOnly _ s := (.ok ⟨⟩, s)
  sendConfirm tx s :=
    match landsAll c s tx with
    | some s' => (.ok ⟨⟩, s')
    | none => (.error (handset.refusal tx), s)
  toBase58 := handset.toBase58
  getBalance key s := (.ok (s.lamports key), s)
  vaultInfo key s :=
    (.ok (if (s.vaultConfigs key).isSome then some (s.lamports key, VaultConfig.space)
      else if s.lamports key = 0 then none else some (s.lamports key, 0)), s)
  getMinimumBalanceForRentExemption length s := (.ok (c.minimumBalance length), s)
  hasAgentKey s := (.ok handset.agent.isSome, s)
  getKeypair s := (handset.agent.elim (.error (error "No agent key")) .ok, s)
  transferFrom source dest n s :=
    if 0 ≤ n ∧ n ≤ s.lamports source then (.ok ⟨⟩, s.give source dest n.toNat)
    else (.error (error "insufficient lamports"), s)
  destroyKey s := (.ok ⟨⟩, s)
  resetStores s := s
  deleteSetting s := (.ok ⟨⟩, s)

variable {handset : Handset} {r : Run World}

/-! ## The refund -/

/-- What is swept from the agent's key: nothing, where it holds too little. -/
def Handset.sweep (handset : Handset) (s : World) : Nat :=
  handset.agent.elim 0 fun agent => if 10000 < s.lamports agent then s.lamports agent - 5000 else 0

/-- The chain after the refund. -/
def Handset.swept (handset : Handset) (s : World) (owner : Pubkey) : World :=
  handset.agent.elim s fun agent => s.give agent owner (handset.sweep s)

theorem swept_rich (owner : Pubkey) {agent : Pubkey} (hagent : handset.agent = some agent)
    (hrich : 10000 < s.lamports agent) :
    handset.sweep s = s.lamports agent - 5000 ∧
      handset.swept s owner = s.give agent owner (s.lamports agent - 5000) := by
  have hsweep : handset.sweep s = s.lamports agent - 5000 := by
    rw [Handset.sweep, hagent, Option.elim_some, if_pos hrich]
  refine ⟨hsweep, ?_⟩
  rw [Handset.swept, hagent, Option.elim_some, hsweep]

theorem swept_poor (owner : Pubkey) {agent : Pubkey} (hagent : handset.agent = some agent)
    (hpoor : ¬ 10000 < s.lamports agent) :
    handset.sweep s = 0 ∧ handset.swept s owner = s := by
  have hsweep : handset.sweep s = 0 := by
    rw [Handset.sweep, hagent, Option.elim_some, if_neg hpoor]
  refine ⟨hsweep, ?_⟩
  rw [Handset.swept, hagent, Option.elim_some, hsweep, World.give, Ledger.move_zero]

theorem refundAgentSol_onNode (c : Cluster) (node : Node) (handset : Handset) (owner : Pubkey)
    {agent : Pubkey} (hrich : 10000 < r.net.lamports agent) :
    (revokeEnv c node handset).refundAgentSol owner agent r =
      .ok true ⟨r.net.give agent owner (r.net.lamports agent - 5000), r.log⟩ := by
  have hbalance : call ((revokeEnv c node handset).getBalance agent) r =
      .ok (r.net.lamports agent : Int) r := rfl
  have hleft : ¬ (r.net.lamports agent : Int) - feeReserve ≤ 0 := by
    unfold feeReserve
    omega
  have hnat : ((r.net.lamports agent : Int) - feeReserve).toNat =
      r.net.lamports agent - 5000 := by
    unfold feeReserve
    omega
  have hsend : call ((revokeEnv c node handset).transferFrom agent owner
      (r.net.lamports agent - feeReserve)) r =
      .ok ⟨⟩ ⟨r.net.give agent owner (r.net.lamports agent - 5000), r.log⟩ := by
    unfold call revokeEnv
    dsimp only
    rw [if_pos (by unfold feeReserve; omega), hnat]
  unfold RevokeEnv.refundAgentSol
  rw [run_bind_ok hbalance, if_neg hleft, run_bind_ok hsend]
  rfl

theorem refundAgent_onNode (c : Cluster) (node : Node) (handset : Handset) (owner : Pubkey)
    (r : Run World) :
    ∃ refund : AgentRefund, refund.lamports = handset.sweep r.net ∧
      (revokeEnv c node handset).refundAgent owner r =
        .ok refund ⟨handset.swept r.net owner, r.log⟩ := by
  cases hagent : handset.agent with
  | none =>
      have hkey : call (revokeEnv c node handset).hasAgentKey r = .ok false r := by
        unfold call revokeEnv
        dsimp only
        rw [hagent]
        rfl
      refine ⟨⟨false, 0, false, "no agent key on this device"⟩, ?_, ?_⟩
      · rw [Handset.sweep, hagent]
        rfl
      · rw [Handset.swept, hagent]
        exact run_tryCatch_ok (run_bind_ok hkey)
  | some agent =>
      have hkey : call (revokeEnv c node handset).hasAgentKey r = .ok true r := by
        unfold call revokeEnv
        dsimp only
        rw [hagent]
        rfl
      have hpair : call (revokeEnv c node handset).getKeypair r = .ok agent r := by
        unfold call revokeEnv
        dsimp only
        rw [hagent]
        rfl
      have hbalance : call ((revokeEnv c node handset).getBalance agent) r =
          .ok (r.net.lamports agent : Int) r := rfl
      by_cases hrich : 10000 < r.net.lamports agent
      · obtain ⟨hsweep, hswept⟩ := swept_rich owner hagent hrich
        refine ⟨⟨true, r.net.lamports agent - feeReserve, false, ""⟩, ?_, ?_⟩
        · rw [hsweep]
          unfold feeReserve
          dsimp only
          omega
        · rw [hswept]
          refine run_tryCatch_ok ?_
          rw [run_bind_ok hkey, if_pos rfl, run_bind_ok hpair, run_bind_ok hbalance,
            if_pos (by omega), run_bind_ok (refundAgentSol_onNode c node handset owner hrich)]
          rfl
      · obtain ⟨hsweep, hswept⟩ := swept_poor owner hagent hrich
        refine ⟨⟨false, 0, true, ""⟩, ?_, ?_⟩
        · rw [hsweep]
          rfl
        · rw [hswept]
          refine run_tryCatch_ok ?_
          rw [run_bind_ok hkey, if_pos rfl, run_bind_ok hpair, run_bind_ok hbalance,
            if_neg (by omega)]
          rfl

/-! ## Sending -/

theorem sendOwnerTx_meets (node : Node) (handset : Handset) (tx : Transaction) :
    Meets (fun r => r.net = s) ((revokeEnv c node handset).sendOwnerTx tx)
      (fun _ r => landsAll c s tx = some r.net)
      (fun _ r => landsAll c s tx = none ∧ r.net = s) := by
  have hsign : Meets (fun r => r.net = s) (call ((revokeEnv c node handset).signOnly tx))
      (fun _ r => r.net = s) (fun _ r => landsAll c s tx = none ∧ r.net = s) := fun _ hr => hr
  refine hsign.bind fun _ => ?_
  refine Meets.bind (Q := fun _ r => r.net = s)
    (Meets.forM fun submission _ r hr => hr) fun _ r hr => ?_
  obtain ⟨net, log⟩ := r
  obtain rfl : net = s := hr
  unfold call revokeEnv
  dsimp only
  cases hland : landsAll c net tx with
  | none => exact ⟨rfl, rfl⟩
  | some s' => rfl

/-- Batch after batch lands. Where one does not, the batches before it have landed. -/
theorem sendAll_meets (c : Cluster) (node : Node) (handset : Handset) (s : World)
    (batches : List Transaction) :
    Meets (fun r => r.net = s) (batches.forM (revokeEnv c node handset).sendOwnerTx)
      (fun _ r => landsAll c s batches.flatten = some r.net)
      (fun _ r => landsAll c s batches.flatten = none ∧ ∃ done rest,
        batches.flatten = done ++ rest ∧ rest ≠ [] ∧ landsAll c s done = some r.net) := by
  refine (Meets.forM_prefix (I := fun done r => landsAll c s done.flatten = some r.net) batches
    fun done tx rest hbatches r hr => ?_).mono (fun r hr => ?_) (fun _ _ h => h) fun _ _ h => h
  · have hsent := sendOwnerTx_meets (c := c) node handset tx r rfl
    have hflat : batches.flatten = done.flatten ++ (tx ++ rest.flatten) := by
      rw [hbatches, List.flatten_append, List.flatten_cons]
    cases hrun : (revokeEnv c node handset).sendOwnerTx tx r with
    | ok u r' =>
        rw [hrun] at hsent
        rw [List.flatten_append, List.flatten_singleton, landsAll_append, hr, Option.bind_some]
        exact hsent
    | error e r' =>
        rw [hrun] at hsent
        obtain ⟨hnone, hnet⟩ := hsent
        refine ⟨?_, done.flatten, tx ++ rest.flatten, hflat, ?_, ?_⟩
        · rw [hflat, landsAll_append, hr, Option.bind_some, landsAll_append, hnone]
          rfl
        · rintro hnil
          rw [(List.append_eq_nil_iff.mp hnil).1, landsAll_nil] at hnone
          cases hnone
        · rw [hnet]
          exact hr
  · rw [List.flatten_nil, landsAll_nil, hr]

/-! ## Building -/

/-- The accounts of the vault that hold something, as they are listed. -/
def listed (node : Node) (s : World) (owner : Pubkey) : List (Pubkey × Nat) :=
  (node.held s (.vault owner) .token ++ node.held s (.vault owner) .token2022).filter
    fun account => 0 < account.2

/-- The creation of the owner's token account, where it is missing. -/
def creation (c : Cluster) (s : World) (owner m : Pubkey) : Transaction :=
  if (s.tokenAccounts (canonicalAta c owner m)).isSome then []
  else [.createAta (canonicalAta c owner m) owner m (.token (c.tokenProgram m))]

def withdrawal (c : Cluster) (owner : Pubkey) (token : Pubkey × Nat) : Submission :=
  .invoke (.withdrawFromVault {
    owner := owner
    vaultConfig := .vault owner
    heartbeatRecord := .heartbeat (.vault owner)
    mint := token.1
    sourceTokenAccount := canonicalAta c (.vault owner) token.1
    destinationTokenAccount := canonicalAta c owner token.1
    tokenProgram := c.tokenProgram token.1 } token.2)

/-- What the vault holds above its rent. -/
def spareLamports (c : Cluster) (s : World) (owner : Pubkey) : Nat :=
  s.lamports (.vault owner) - c.minimumBalance VaultConfig.space

def solWithdrawal (c : Cluster) (s : World) (owner : Pubkey) : Transaction :=
  if spareLamports c s owner = 0 then []
  else [.invoke (.withdrawSolFromVault {
    owner := owner
    vaultConfig := .vault owner
    heartbeatRecord := .heartbeat (.vault owner) } (spareLamports c s owner))]

/-- What empties the vault. -/
def withdrawals (c : Cluster) (node : Node) (s : World) (owner : Pubkey) : Transaction :=
  ((listed node s owner).map fun token =>
    creation c s owner token.1 ++ [withdrawal c owner token]).flatten ++ solWithdrawal c s owner

/-- The last instruction. -/
def revocation (owner : Pubkey) (v : VaultConfig) : Submission :=
  .invoke (.revokeVault {
    owner := owner
    vaultConfig := .vault owner
    heartbeatRecord := .heartbeat (.vault owner)
    assetPlan := v.planKey (.vault owner) })

/-- What the app relies on when it builds: the listed mints are there, the owner's address is
    that of a wallet, and at its associated addresses there are only accounts of the mints. -/
structure Legible (c : Cluster) (node : Node) (s : World) (owner : Pubkey) : Prop where
  mints : ∀ token ∈ listed node s owner, (s.mints token.1).isSome = true
  onCurve : node.onCurve owner = true
  accounts : ∀ m a, s.tokenAccounts (canonicalAta c owner m) = some a →
    a.program = some (c.tokenProgram m) ∧ a.mint = m

theorem withdrawToken_onNode (h : Legible c node r.net owner) {token : Pubkey × Nat}
    (htoken : token ∈ listed node r.net owner) :
    (revokeEnv c node handset).withdrawToken owner token r =
      .ok (creation c r.net owner token.1 ++ [withdrawal c owner token]) r := by
  obtain ⟨m, n⟩ := token
  obtain ⟨mint, hmint⟩ := Option.isSome_iff_exists.mp (h.mints _ htoken)
  have hprogram : getTokenProgramForMint (node.client c) m r = .ok (c.tokenProgram m) r := by
    have hread : call ((node.client c).accountInfo m) r =
        .ok (some (.token (c.tokenProgram m))) r := by
      refine call_read ?_
      show (Except.ok (node.ownerOf c r.net m), r.net) = _
      rw [Node.ownerOf, hmint]
    unfold getTokenProgramForMint
    rw [run_bind_ok hread]
    cases c.tokenProgram m <;> rfl
  have hcreate : (tryCatch (do
      let _ ← call ((node.client c).tokenAccount (canonicalAta c owner m)
        (.token (c.tokenProgram m)))
      return []) fun _ => return [.createAta (canonicalAta c owner m) owner m
        (.token (c.tokenProgram m))] : Routine World Transaction) r =
      .ok (creation c r.net owner m) r := by
    unfold creation
    cases hacc : r.net.tokenAccounts (canonicalAta c owner m) with
    | some a =>
        have hread : call ((node.client c).tokenAccount (canonicalAta c owner m)
            (.token (c.tokenProgram m))) r =
            .ok (r.net.tokenAmounts (canonicalAta c owner m),
              r.net.withheldFees (canonicalAta c owner m)) r := by
          refine call_read ?_
          show (tokenAccountOf r.net _ _, r.net) = _
          rw [tokenAccountOf, hacc]
          dsimp only
          rw [if_pos (by rw [(h.accounts m a hacc).1]; rfl)]
        exact run_tryCatch_ok ((run_bind_ok hread).trans rfl)
    | none =>
        have hread : call ((node.client c).tokenAccount (canonicalAta c owner m)
            (.token (c.tokenProgram m))) r =
            .error { name := "TokenAccountNotFoundError", message := "" } r := by
          unfold call Node.client
          dsimp only
          rw [tokenAccountOf, hacc]
        exact run_tryCatch_error ((run_bind_error hread))
  unfold RevokeEnv.withdrawToken
  dsimp only
  refine (run_bind_ok (x := getTokenProgramForMint (node.client c) m) hprogram).trans ?_
  refine (run_bind_ok (getAssociatedTokenAddress_ok (node.client c) m owner false
    (.inr h.onCurve) _ r)).trans ?_
  refine (run_bind_ok (getAssociatedTokenAddress_ok (node.client c) m (.vault owner) true
    (.inl rfl) _ r)).trans ?_
  exact (run_bind_ok hcreate).trans rfl

theorem mapM_read {α β : Type} {f : α → Routine World β} {g : α → β} {xs : List α}
    (h : ∀ a ∈ xs, f a r = .ok (g a) r) : xs.mapM f r = .ok (xs.map g) r := by
  induction xs with
  | nil => rfl
  | cons a xs ih =>
      rw [List.mapM_cons, run_bind_ok (h a List.mem_cons_self),
        run_bind_ok (ih fun b hb => h b (List.mem_cons_of_mem a hb))]
      rfl

theorem withdrawSol_onNode (hv : r.net.vaultConfigs (.vault owner) = some v) :
    (revokeEnv c node handset).withdrawSol owner r = .ok (solWithdrawal c r.net owner) r := by
  have hinfo : call ((revokeEnv c node handset).vaultInfo (.vault owner)) r =
      .ok (some (r.net.lamports (.vault owner), VaultConfig.space)) r := by
    refine call_read ?_
    unfold revokeEnv
    dsimp only
    rw [hv]
    rfl
  have hrent : call ((revokeEnv c node handset).getMinimumBalanceForRentExemption
      VaultConfig.space) r = .ok (c.minimumBalance VaultConfig.space) r := rfl
  unfold RevokeEnv.withdrawSol
  rw [run_bind_ok hinfo]
  dsimp only
  rw [run_bind_ok hrent]
  unfold solWithdrawal spareLamports
  split
  next hle => rw [if_pos (Nat.sub_eq_zero_of_le hle)]; rfl
  next hlt => rw [if_neg (by omega)]; rfl

theorem buildWithdrawAll_onNode (handset : Handset) (h : Legible c node r.net owner)
    (hv : r.net.vaultConfigs (.vault owner) = some v) :
    ∃ count, (revokeEnv c node handset).buildWithdrawAllInstructions owner r =
      .ok (withdrawals c node r.net owner, count) r := by
  refine ⟨(listed node r.net owner).length + (solWithdrawal c r.net owner).length, ?_⟩
  have htokens : (revokeEnv c node handset).getVaultTokenBalances owner r =
      .ok (listed node r.net owner) r := rfl
  unfold RevokeEnv.buildWithdrawAllInstructions
  refine (run_bind_ok htokens).trans ?_
  refine (run_bind_ok (mapM_read fun token htoken => withdrawToken_onNode h htoken)).trans ?_
  exact (run_bind_ok (withdrawSol_onNode hv)).trans rfl

theorem fetchVaultConfig_onNode (c : Cluster) (node : Node) (handset : Handset)
    (owner : Pubkey) (r : Run World) :
    fetchVaultConfig (revokeEnv c node handset).client (.vault owner) r =
      .ok (r.net.vaultConfigs (.vault owner)) r :=
  run_tryCatch_ok (call_read rfl)

/-- The instruction is the last one. -/
theorem flatten_pushLast (ix : Submission) {batches : List Transaction} (h : batches ≠ []) :
    (pushLast batches ix).flatten = batches.flatten ++ [ix] := by
  induction batches with
  | nil => exact absurd rfl h
  | cons batch rest ih =>
      cases rest with
      | nil => simp [pushLast]
      | cons next rest =>
          have hstep : pushLast (batch :: next :: rest) ix = batch :: pushLast (next :: rest) ix :=
            rfl
          rw [hstep, List.flatten_cons, ih (List.cons_ne_nil _ _), ← List.append_assoc,
            ← List.flatten_cons]

theorem buildBatchedTxs_onNode (c : Cluster) (node : Node) (handset : Handset) (ixs : Transaction)
    (hv : r.net.vaultConfigs (.vault owner) = some v) :
    ∃ batches, batches.flatten = ixs ++ [revocation owner v] ∧
      (revokeEnv c node handset).buildBatchedTxs owner ixs r = .ok batches r := by
  have hplan : (revokeEnv c node handset).assetPlanIfPresent owner r =
      .ok (v.planKey (.vault owner)) r := by
    have hread := fetchVaultConfig_onNode c node handset owner r
    rw [hv] at hread
    exact (run_bind_ok hread).trans rfl
  refine ⟨_, ?_, (run_bind_ok hplan).trans rfl⟩
  rw [flatten_pushLast]
  · congr 1
    split
    next hnil =>
      have hflat := flatten_chunk ixs (n := maxIxsPerTx) (by decide)
      rw [hnil] at hflat
      exact hflat
    next => exact flatten_chunk ixs (by decide)
  · split
    · exact List.cons_ne_nil _ _
    · assumption

end Device

end DeadMansVault
