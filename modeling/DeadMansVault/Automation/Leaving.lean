-- SUMMARY: What the withdrawals of an exit take from the vault, one after the other, and when all of them land.
import DeadMansVault.Automation.Exit

/-!
# Leaving

The withdrawals move tokens from the vault's associated accounts to the owner's, and lamports to
the owner. They land together with the revoke if and only if the associated accounts hold what all
the listed accounts of the vault hold.
-/

namespace DeadMansVault.Device

open Crank Script World RevokeEnv

variable {c : Cluster} {node : Node} {s w w' : World} {owner : Pubkey} {v : VaultConfig}
  {h : HeartbeatRecord}

/-! ## What is taken -/

/-- What an instruction takes of a mint. -/
def takes : Submission → Pubkey → Nat
  | .invoke (.withdrawFromVault ctx amount), m => if ctx.mint = m then amount else 0
  | _, _ => 0

/-- What it takes of lamports. -/
def draws : Submission → Nat
  | .invoke (.withdrawSolFromVault _ amount) => amount
  | _ => 0

def taken (tx : Transaction) (m : Pubkey) : Nat := (tx.map fun ix => takes ix m).sum

def drawn (tx : Transaction) : Nat := (tx.map draws).sum

theorem taken_append (tx tx' : Transaction) (m : Pubkey) :
    taken (tx ++ tx') m = taken tx m + taken tx' m := by
  simp [taken]

theorem drawn_append (tx tx' : Transaction) : drawn (tx ++ tx') = drawn tx + drawn tx' := by
  simp [drawn]

/-- The instructions that an exit begins with. -/
inductive Withdraws (c : Cluster) (owner : Pubkey) : Submission → Prop
  | create (m : Pubkey) : Withdraws c owner
      (.createAta (canonicalAta c owner m) owner m (.token (c.tokenProgram m)))
  | token (token : Pubkey × Nat) : Withdraws c owner (withdrawal c owner token)
  | sol (n : Nat) : Withdraws c owner (.invoke (.withdrawSolFromVault {
      owner := owner
      vaultConfig := .vault owner
      heartbeatRecord := .heartbeat (.vault owner) } n))

/-- So much has been taken of each mint, and of the lamports, and nothing else has changed. -/
structure Emptied (c : Cluster) (owner : Pubkey) (s w : World) (out : Pubkey → Nat) (sol : Nat) :
    Prop where
  reachable : Reachable c w
  now : w.now = s.now
  mints : w.mints = s.mints
  vaultConfigs : w.vaultConfigs = s.vaultConfigs
  heartbeatRecords : w.heartbeatRecords = s.heartbeatRecords
  assetPlans : w.assetPlans = s.assetPlans
  kept : ∀ k a, s.tokenAccounts k = some a → w.tokenAccounts k = some a
  made : ∀ m a, w.tokenAccounts (canonicalAta c owner m) = some a →
    s.tokenAccounts (canonicalAta c owner m) = some a ∨ a = ⟨some (c.tokenProgram m), m, owner⟩
  vaultTokens : ∀ m, w.tokenAmounts (canonicalAta c (.vault owner) m) + out m =
    s.tokenAmounts (canonicalAta c (.vault owner) m)
  ownerTokens : ∀ m, w.tokenAmounts (canonicalAta c owner m) =
    s.tokenAmounts (canonicalAta c owner m) + out m
  vaultLamports : w.lamports (.vault owner) + sol = s.lamports (.vault owner)
  ownerLamports : w.lamports owner = s.lamports owner + sol
  lamports : ∀ k, k ≠ owner → k ≠ .vault owner → w.lamports k = s.lamports k

theorem canonicalAta_inj {o o' m m' : Pubkey} (h : canonicalAta c o m = canonicalAta c o' m') :
    o = o' ∧ m = m' := by
  simp only [canonicalAta, Pubkey.associatedToken.injEq] at h
  exact ⟨h.1, h.2.1⟩

/-- A wallet that signs is not its vault. -/
theorem ne_vault (hsign : owner.canSign = true) : owner ≠ .vault owner := by
  intro heq
  rw [heq] at hsign
  cases hsign

namespace Emptied

variable {out : Pubkey → Nat} {sol : Nat}

theorem start (owner : Pubkey) (hs : Reachable c s) : Emptied c owner s s (fun _ => 0) 0 :=
  ⟨hs, rfl, rfl, rfl, rfl, rfl, fun _ _ h => h, fun _ _ h => .inl h, fun _ => rfl, fun _ => rfl,
    rfl, rfl, fun _ _ _ => rfl⟩

theorem create (hw : Emptied c owner s w out sol) (m : Pubkey) :
    Emptied c owner s (w.createAta c (owner, m)) out sol := by
  have hreach := hw.reachable.step
    (.environment (createAta_environment hw.reachable.sound.regular (owner, m)))
  have hkept : ∀ k a, w.tokenAccounts k = some a →
      (w.createAta c (owner, m)).tokenAccounts k = some a := fun k a h => createAta_kept h
  have hmade : ∀ m' a, (w.createAta c (owner, m)).tokenAccounts (canonicalAta c owner m') = some a →
      w.tokenAccounts (canonicalAta c owner m') = some a ∨
        a = ⟨some (c.tokenProgram m'), m', owner⟩ := by
    intro m' a ha
    unfold World.createAta at ha
    split at ha
    · exact .inl ha
    · by_cases heq : canonicalAta c owner m' = canonicalAta c owner m
      · obtain ⟨-, rfl⟩ := canonicalAta_inj heq
        rw [putTokenAccounts_tokenAccounts, Function.update_self] at ha
        exact .inr (Option.some.inj ha).symm
      · rw [putTokenAccounts_tokenAccounts, Function.update_of_ne heq] at ha
        exact .inl ha
  obtain ⟨t, ht⟩ := createAta_eq (c := c) w (owner, m)
  rw [ht] at hreach hkept hmade ⊢
  exact ⟨hreach, hw.now, hw.mints, hw.vaultConfigs, hw.heartbeatRecords, hw.assetPlans,
    fun k a ha => hkept k a (hw.kept k a ha),
    fun m' a ha => (hmade m' a ha).elim (hw.made m' a) .inr, hw.vaultTokens, hw.ownerTokens,
    hw.vaultLamports, hw.ownerLamports, hw.lamports⟩

theorem withdraw (hw : Emptied c owner s w out sol) (hsign : owner.canSign = true)
    {m : Pubkey} {n : Nat}
    (hexec : exec c (.withdrawFromVault ⟨owner, .vault owner, .heartbeat (.vault owner), m,
      canonicalAta c (.vault owner) m, canonicalAta c owner m, c.tokenProgram m⟩ n) w = .ok w') :
    Emptied c owner s w' (fun m' => out m' + if m = m' then n else 0) sol := by
  have hreach := hw.reachable.step (.executed hexec)
  obtain ⟨_, _, _, -, -, -, -, -, -, hn, rfl⟩ := withdrawFromVault_ok hexec
  have hapart : ∀ a b, canonicalAta c (.vault owner) a ≠ canonicalAta c owner b := by
    intro a b heq
    exact ne_vault hsign (canonicalAta_inj heq).1.symm
  have hn : n ≤ w.tokenAmounts (canonicalAta c (.vault owner) m) := hn
  refine ⟨hreach, hw.now, hw.mints, hw.vaultConfigs, hw.heartbeatRecords, hw.assetPlans, hw.kept,
    hw.made, fun m' => ?_, fun m' => ?_, hw.vaultLamports, hw.ownerLamports, hw.lamports⟩
  · have hv := hw.vaultTokens m'
    show Ledger.move w.tokenAmounts (canonicalAta c (.vault owner) m) (canonicalAta c owner m) n _ +
      _ = _
    by_cases hm : m = m'
    · subst hm
      rw [Ledger.move_source (hapart m m), if_pos rfl]
      omega
    · rw [Ledger.move_of_ne (fun heq => hm (canonicalAta_inj heq).2.symm) (hapart m' m), if_neg hm]
      exact hv
  · have ho := hw.ownerTokens m'
    show Ledger.move w.tokenAmounts (canonicalAta c (.vault owner) m) (canonicalAta c owner m) n _ =
      _
    by_cases hm : m = m'
    · subst hm
      rw [Ledger.move_dest (hapart m m).symm, if_pos rfl, ho, Nat.add_assoc]
    · rw [Ledger.move_of_ne (hapart m m').symm
        (fun heq => hm (canonicalAta_inj heq).2.symm), if_neg hm]
      exact ho

theorem withdrawSol (hw : Emptied c owner s w out sol) (hsign : owner.canSign = true) {n : Nat}
    (hexec : exec c (.withdrawSolFromVault ⟨owner, .vault owner, .heartbeat (.vault owner)⟩ n) w =
      .ok w') : Emptied c owner s w' out (sol + n) := by
  have hreach := hw.reachable.step (.executed hexec)
  obtain ⟨_, _, -, -, -, -, hn, rfl⟩ := withdrawSolFromVault_ok hexec
  have hn : c.minimumBalance VaultConfig.space + n ≤ w.lamports (.vault owner) := hn
  have hv := hw.vaultLamports
  refine ⟨hreach, hw.now, hw.mints, hw.vaultConfigs, hw.heartbeatRecords, hw.assetPlans, hw.kept,
    hw.made, hw.vaultTokens, hw.ownerTokens, ?_, ?_, fun k hk hk' => ?_⟩
  · show Ledger.move w.lamports _ _ n _ + _ = _
    rw [Ledger.move_source (ne_vault hsign).symm]
    omega
  · show Ledger.move w.lamports _ _ n _ = _
    rw [Ledger.move_dest (ne_vault hsign), hw.ownerLamports, Nat.add_assoc]
  · exact (Ledger.move_of_ne hk' hk).trans (hw.lamports k hk hk')

/-- An instruction takes what it says. -/
theorem lands (hw : Emptied c owner s w out sol) (hsign : owner.canSign = true)
    {ix : Submission} (hix : Withdraws c owner ix) (hland : ix.lands c w = some w') :
    Emptied c owner s w' (fun m => out m + takes ix m) (sol + draws ix) := by
  cases hix with
  | create m =>
      rw [Submission.lands] at hland
      split at hland
      · obtain rfl := Option.some.inj hland
        exact hw.create m
      · cases hland
  | token token => exact hw.withdraw hsign (Submission.exec_of_lands rfl rfl hland)
  | sol n => exact hw.withdrawSol hsign (Submission.exec_of_lands rfl rfl hland)

/-- So do the instructions of a transaction together. -/
theorem run (hsign : owner.canSign = true) {tx : Transaction}
    (htx : ∀ ix ∈ tx, Withdraws c owner ix) (hw : Emptied c owner s w out sol)
    (hland : landsAll c w tx = some w') :
    Emptied c owner s w' (fun m => out m + taken tx m) (sol + drawn tx) := by
  induction tx generalizing w out sol with
  | nil =>
      obtain rfl := Option.some.inj hland
      exact hw
  | cons ix tx ih =>
      rw [landsAll_cons, Option.bind_eq_some_iff] at hland
      obtain ⟨w₁, hfirst, hrest⟩ := hland
      have hend := ih (fun ix' hix' => htx ix' (List.mem_cons_of_mem _ hix'))
        (hw.lands hsign (htx ix List.mem_cons_self) hfirst) hrest
      have hout : (fun m => out m + takes ix m + taken tx m) =
          fun m => out m + taken (ix :: tx) m := by
        funext m
        simp [taken, Nat.add_assoc]
      have hsol : sol + draws ix + drawn tx = sol + drawn (ix :: tx) := by
        simp [drawn, Nat.add_assoc]
      rw [hout, hsol] at hend
      exact hend

end Emptied

/-! ## What all of them take -/

theorem creation_takes (m m' : Pubkey) : taken (creation c s owner m) m' = 0 := by
  unfold creation
  split <;> rfl

theorem creation_draws (m : Pubkey) : drawn (creation c s owner m) = 0 := by
  unfold creation
  split <;> rfl

/-- The withdrawals of tokens. -/
def tokenWithdrawals (c : Cluster) (s : World) (owner : Pubkey) (tokens : List (Pubkey × Nat)) :
    Transaction :=
  (tokens.map fun token => creation c s owner token.1 ++ [withdrawal c owner token]).flatten

theorem tokenWithdrawals_cons (token : Pubkey × Nat) (tokens : List (Pubkey × Nat)) :
    tokenWithdrawals c s owner (token :: tokens) =
      creation c s owner token.1 ++
        (withdrawal c owner token :: tokenWithdrawals c s owner tokens) := by
  simp [tokenWithdrawals]

theorem tokenWithdrawals_take (c : Cluster) (s : World) (owner : Pubkey)
    (tokens : List (Pubkey × Nat)) (m : Pubkey) :
    taken (tokenWithdrawals c s owner tokens) m = balance tokens m ∧
      drawn (tokenWithdrawals c s owner tokens) = 0 := by
  induction tokens with
  | nil => exact ⟨rfl, rfl⟩
  | cons token tokens ih =>
      rw [tokenWithdrawals_cons, taken_append, drawn_append, creation_takes, creation_draws,
        balance_cons, ← ih.1, Nat.zero_add, Nat.zero_add]
      refine ⟨by simp [taken, takes, withdrawal], ?_⟩
      have hrest := ih.2
      simp only [drawn, List.map_cons, List.sum_cons] at hrest ⊢
      rw [hrest]
      rfl

theorem balance_append (accounts rest : List (Pubkey × Nat)) (m : Pubkey) :
    balance (accounts ++ rest) m = balance accounts m + balance rest m := by
  simp [balance]

/-- Accounts that hold nothing do not count. -/
theorem balance_positive (accounts : List (Pubkey × Nat)) (m : Pubkey) :
    balance (accounts.filter fun account => 0 < account.2) m = balance accounts m := by
  induction accounts with
  | nil => rfl
  | cons account rest ih =>
      by_cases hpos : 0 < account.2
      · rw [List.filter_cons_of_pos (by simpa using hpos), balance_cons, balance_cons, ih]
      · have hzero : account.2 = 0 := by omega
        rw [List.filter_cons_of_neg (by simpa using hzero), balance_cons, ih, hzero, ite_self,
          Nat.zero_add]

/-- The listed balances add up to what the vault holds. -/
theorem listed_balance (m : Pubkey) :
    balance (listed node s owner) m = node.holding s (.vault owner) m := by
  unfold listed
  rw [balance_positive, balance_append]
  rfl

theorem solWithdrawal_takes (c : Cluster) (s : World) (owner m : Pubkey) :
    taken (solWithdrawal c s owner) m = 0 ∧
      drawn (solWithdrawal c s owner) = spareLamports c s owner := by
  unfold solWithdrawal
  split
  next hnone => exact ⟨rfl, hnone.symm⟩
  next => exact ⟨rfl, rfl⟩

/-- Together they take what the listed accounts hold, and what is above the rent. -/
theorem withdrawals_take (m : Pubkey) :
    taken (withdrawals c node s owner) m = node.holding s (.vault owner) m ∧
      drawn (withdrawals c node s owner) = spareLamports c s owner := by
  have htokens := tokenWithdrawals_take c s owner (listed node s owner) m
  have hsol := solWithdrawal_takes c s owner m
  show taken (tokenWithdrawals c s owner (listed node s owner) ++ _) m = _ ∧
    drawn (tokenWithdrawals c s owner (listed node s owner) ++ _) = _
  rw [taken_append, drawn_append, htokens.1, htokens.2, hsol.1, hsol.2, Nat.add_zero, Nat.zero_add]
  exact ⟨listed_balance m, rfl⟩

theorem withdrawals_withdraw (node : Node) (s : World) :
    ∀ ix ∈ withdrawals c node s owner, Withdraws c owner ix := by
  intro ix hix
  rcases List.mem_append.mp hix with htokens | hsol
  · obtain ⟨tx, htx, hmem⟩ := List.mem_flatten.mp htokens
    obtain ⟨token, -, rfl⟩ := List.mem_map.mp htx
    rcases List.mem_append.mp hmem with hcreate | htoken
    · unfold creation at hcreate
      split at hcreate
      · cases hcreate
      · obtain rfl := List.mem_singleton.mp hcreate
        exact .create token.1
    · obtain rfl := List.mem_singleton.mp htoken
      exact .token token
  · unfold solWithdrawal at hsol
    split at hsol
    · cases hsol
    · obtain rfl := List.mem_singleton.mp hsol
      exact .sol _

/-! ## When they land -/

namespace Emptied

variable {out : Pubkey → Nat} {sol : Nat}

theorem leavable_iff (hw : Emptied c owner s w out sol) :
    Leavable w.fresh owner v h ↔ Leavable s owner v h := by
  have hunfrozen : Unfrozen w.fresh (.vault owner) v h ↔ Unfrozen s (.vault owner) v h := by
    constructor
    · rintro ⟨hv, hh, hpin, hbefore⟩
      exact ⟨(congrFun hw.vaultConfigs _).symm.trans hv,
        (congrFun hw.heartbeatRecords _).symm.trans hh, hpin, hw.now ▸ hbefore⟩
    · rintro ⟨hv, hh, hpin, hbefore⟩
      exact ⟨(congrFun hw.vaultConfigs _).trans hv, (congrFun hw.heartbeatRecords _).trans hh, hpin,
        lt_of_eq_of_lt hw.now hbefore⟩
  exact ⟨fun hleave => ⟨hunfrozen.mp hleave.unfrozen, hleave.owner, hleave.deadline⟩,
    fun hleave => ⟨hunfrozen.mpr hleave.unfrozen, hleave.owner, hleave.deadline⟩⟩

theorem leavable (hw : Emptied c owner s w out sol) (hleave : Leavable s owner v h) :
    Leavable w.fresh owner v h :=
  hw.leavable_iff.mpr hleave

/-- There is a token account of the owner afterwards. -/
theorem creation_lands (hw : Emptied c owner s w out sol) (hlegible : Legible c node s owner)
    {m : Pubkey} (hmint : (s.mints m).isSome = true) :
    ∃ w', landsAll c w (creation c s owner m) = some w' ∧ Emptied c owner s w' out sol ∧
      ∃ recipient, w'.tokenAccounts (canonicalAta c owner m) =
        some ⟨some (c.tokenProgram m), m, recipient⟩ := by
  unfold creation
  cases hacc : s.tokenAccounts (canonicalAta c owner m) with
  | some a =>
      obtain ⟨hprogram, hm⟩ := hlegible.accounts m a hacc
      refine ⟨w, rfl, hw, a.owner, ?_⟩
      rw [hw.kept _ _ hacc, ← hprogram, ← hm]
  | none =>
      have hmade : ∀ a, w.tokenAccounts (canonicalAta c owner m) = some a →
          a = ⟨some (c.tokenProgram m), m, owner⟩ := by
        intro a ha
        rcases hw.made m a ha with hold | hnew
        · cases hacc.symm.trans hold
        · exact hnew
      refine ⟨w.createAta c (owner, m), ?_, hw.create m, owner, ?_⟩
      · rw [Option.isSome_none, if_neg Bool.false_ne_true, landsAll_cons, Submission.lands,
          if_pos ⟨rfl, rfl, hw.mints.symm ▸ hmint, fun a ha => hmade a ha⟩]
        rfl
      · cases hthere : w.tokenAccounts (canonicalAta c owner m) with
        | some a =>
            rw [createAta_kept hthere, hmade a hthere]
        | none => simp [World.createAta, hthere]

/-- A withdrawal lands where the associated account of the vault holds as much. -/
theorem token_lands (hw : Emptied c owner s w out sol) (hleave : Leavable s owner v h)
    (hsign : owner.canSign = true) {m recipient : Pubkey} {n : Nat}
    (hmint : (s.mints m).isSome = true) (hpos : 0 < n)
    (hdest : w.tokenAccounts (canonicalAta c owner m) =
      some ⟨some (c.tokenProgram m), m, recipient⟩)
    (hcover : out m + n ≤ s.tokenAmounts (canonicalAta c (.vault owner) m)) :
    ∃ w', (withdrawal c owner (m, n)).lands c w = some w' ∧
      Emptied c owner s w' (fun m' => out m' + if m = m' then n else 0) sol := by
  have hregular := hw.reachable.sound.regular
  have hheld := hw.vaultTokens m
  have hn : n ≤ w.tokenAmounts (canonicalAta c (.vault owner) m) := by omega
  have hsource : w.tokenAccounts (canonicalAta c (.vault owner) m) =
      some ⟨some (c.tokenProgram m), m, .vault owner⟩ := by
    cases hacc : w.tokenAccounts (canonicalAta c (.vault owner) m) with
    | none =>
        have hzero := hregular.vacant _ hacc
        omega
    | some a => rw [hregular.vaultAtas owner m _ a hacc]
  obtain ⟨w', hexec⟩ := withdrawFromVault_progress hregular.fresh (hw.leavable hleave) hsign
    (m := m) (hw.mints.symm ▸ hmint) hsource hdest hn
  have hexec : exec c (.withdrawFromVault ⟨owner, .vault owner, .heartbeat (.vault owner), m,
      canonicalAta c (.vault owner) m, canonicalAta c owner m, c.tokenProgram m⟩ n) w = .ok w' :=
    hexec
  refine ⟨w', ?_, hw.withdraw hsign hexec⟩
  show (exec c _ w).toOption = _
  rw [hexec]
  rfl

/-- All of them land where the associated accounts hold what they take together. -/
theorem tokens_land (hleave : Leavable s owner v h) (hsign : owner.canSign = true)
    (hlegible : Legible c node s owner) (tokens : List (Pubkey × Nat))
    (htokens : ∀ token ∈ tokens, (s.mints token.1).isSome = true ∧ 0 < token.2)
    (hcover : ∀ m, out m + balance tokens m ≤ s.tokenAmounts (canonicalAta c (.vault owner) m))
    (hw : Emptied c owner s w out sol) :
    ∃ w', landsAll c w (tokenWithdrawals c s owner tokens) = some w' := by
  induction tokens generalizing w out with
  | nil => exact ⟨w, rfl⟩
  | cons token tokens ih =>
      obtain ⟨m, n⟩ := token
      obtain ⟨hmint, hpos⟩ := htokens _ List.mem_cons_self
      have hfirst := hcover m
      rw [balance_cons, if_pos rfl] at hfirst
      have hcovered : out m + n ≤ s.tokenAmounts (canonicalAta c (.vault owner) m) :=
        (Nat.add_le_add_left (Nat.le_add_right n _) _).trans hfirst
      obtain ⟨w₁, hcreate, hw₁, recipient, hdest⟩ := hw.creation_lands hlegible hmint
      obtain ⟨w₂, hland, hw₂⟩ := hw₁.token_lands hleave hsign hmint hpos hdest hcovered
      obtain ⟨w₃, hrest⟩ := ih (fun token htoken => htokens token (List.mem_cons_of_mem _ htoken))
        (fun m' => by
          have hall := hcover m'
          rw [balance_cons] at hall
          rw [Nat.add_assoc]
          exact hall) hw₂
      refine ⟨w₃, ?_⟩
      rw [tokenWithdrawals_cons, landsAll_append, hcreate, Option.bind_some, landsAll_cons, hland,
        Option.bind_some, hrest]

theorem sol_lands (hw : Emptied c owner s w out 0) (hleave : Leavable s owner v h)
    (hsign : owner.canSign = true) : ∃ w', landsAll c w (solWithdrawal c s owner) = some w' := by
  unfold solWithdrawal
  split
  · exact ⟨w, rfl⟩
  next hpos =>
    have hsame := hw.vaultLamports
    unfold spareLamports at hpos ⊢
    obtain ⟨w', hexec⟩ := withdrawSolFromVault_progress (c := c) hw.reachable.sound.regular.fresh
      (hw.leavable hleave) hsign (n := s.lamports (.vault owner) -
        c.minimumBalance VaultConfig.space) (Nat.pos_of_ne_zero hpos)
      (by rw [fresh_lamports]; omega)
    have hexec : exec c (.withdrawSolFromVault ⟨owner, .vault owner, .heartbeat (.vault owner)⟩
        (s.lamports (.vault owner) - c.minimumBalance VaultConfig.space)) w = .ok w' := hexec
    refine ⟨w', ?_⟩
    rw [landsAll_cons, Submission.lands, hexec]
    rfl

end Emptied

/-- Before the revoke, everything that is listed has been withdrawn. -/
theorem withdrawals_land (hs : Reachable c s) (hlegible : Legible c node s owner)
    (hleave : Leavable s owner v h) (hsign : owner.canSign = true)
    (hcover : ∀ m, node.holding s (.vault owner) m ≤
      s.tokenAmounts (canonicalAta c (.vault owner) m)) :
    ∃ w, landsAll c s (withdrawals c node s owner) = some w := by
  have hstart := Emptied.start owner hs
  obtain ⟨w₁, htokens⟩ := hstart.tokens_land hleave hsign hlegible (listed node s owner)
    (fun token htoken => ⟨hlegible.mints token htoken, by
      simpa using (List.mem_filter.mp htoken).2⟩)
    (fun m => by rw [listed_balance, Nat.zero_add]; exact hcover m)
  have hw₁ : Emptied c owner s w₁
      (fun m => 0 + taken (tokenWithdrawals c s owner (listed node s owner)) m)
      (0 + drawn (tokenWithdrawals c s owner (listed node s owner))) :=
    hstart.run hsign (fun ix hix => withdrawals_withdraw node s ix
      (List.mem_append_left _ hix)) htokens
  rw [(tokenWithdrawals_take c s owner (listed node s owner) owner).2] at hw₁
  obtain ⟨w₂, hsol⟩ := hw₁.sol_lands hleave hsign
  refine ⟨w₂, ?_⟩
  show landsAll c s (tokenWithdrawals c s owner (listed node s owner) ++ _) = _
  rw [landsAll_append, htokens, Option.bind_some, hsol]

theorem planLoads (hs : Reachable c s) (hv : s.vaultConfigs (.vault owner) = some v) :
    PlanLoads s.fresh (.vault owner) v := by
  intro hhas
  obtain ⟨p, hp⟩ := Option.isSome_iff_exists.mp ((hs.lawful owner).planned.mpr ⟨v, hv, hhas⟩)
  exact ⟨p, hp, ((hs.lawful owner).plan p hp).1⟩

/-- What the exit leaves behind, if all of it lands. -/
theorem exit_lands (hs : Reachable c s) (hv : s.vaultConfigs (.vault owner) = some v)
    (hsign : owner.canSign = true)
    (hland : landsAll c s (withdrawals c node s owner ++ [revocation owner v]) = some w') :
    (∃ h, Leavable s owner v h) ∧ v.isMutable = true ∧
      ∃ w, Emptied c owner s w (node.holding s (.vault owner)) (spareLamports c s owner) ∧
        w' = (w.fresh.closePlan v (.vault owner) owner).closePair (.vault owner) owner := by
  rw [landsAll_append, Option.bind_eq_some_iff] at hland
  obtain ⟨w, hwithdrawn, hrevoked⟩ := hland
  rw [landsAll_cons, Option.bind_eq_some_iff] at hrevoked
  obtain ⟨w₁, hrevoked, hlast⟩ := hrevoked
  obtain rfl := Option.some.inj hlast
  have hw : Emptied c owner s w (fun m => 0 + taken (withdrawals c node s owner) m)
      (0 + drawn (withdrawals c node s owner)) :=
    (Emptied.start owner hs).run hsign (withdrawals_withdraw node s) hwithdrawn
  have htaken : (fun m => 0 + taken (withdrawals c node s owner) m) =
      node.holding s (.vault owner) := by
    funext m
    rw [Nat.zero_add, (withdrawals_take m).1]
  rw [htaken, Nat.zero_add, (withdrawals_take owner).2] at hw
  have hexec : exec c (.revokeVault ⟨owner, .vault owner, .heartbeat (.vault owner),
      v.planKey (.vault owner)⟩) w = .ok w₁ := Submission.exec_of_lands rfl rfl hrevoked
  obtain ⟨v', h, hleave, hmutable⟩ := revokeVault_leavable hexec
  obtain ⟨v'', _, -, -, hunfrozen, -, -, -, -, hw₁⟩ := revokeVault_ok hexec
  have hconfig : w.fresh.vaultConfigs (.vault owner) = some v :=
    (congrFun hw.vaultConfigs _).trans hv
  obtain rfl := Option.some.inj (hconfig.symm.trans hleave.unfrozen.config)
  obtain rfl := Option.some.inj (hconfig.symm.trans hunfrozen.config)
  exact ⟨⟨h, hw.leavable_iff.mp hleave⟩, hmutable, w, hw, hw₁⟩

/-- **When the exit lands.** The vault can be left and changed, and its associated accounts hold
    all that its listed accounts do. -/
theorem exit_lands_iff (hs : Reachable c s) (hlegible : Legible c node s owner)
    (hv : s.vaultConfigs (.vault owner) = some v) (hactive : v.active = true)
    (hsign : owner.canSign = true) :
    landsAll c s (withdrawals c node s owner ++ [revocation owner v]) ≠ none ↔
      (∃ h, Leavable s owner v h) ∧ v.isMutable = true ∧
        ∀ m, node.holding s (.vault owner) m ≤
          s.tokenAmounts (canonicalAta c (.vault owner) m) := by
  constructor
  · intro hland
    obtain ⟨w', hw'⟩ := Option.ne_none_iff_exists'.mp hland
    obtain ⟨hleave, hmutable, w, hw, -⟩ := exit_lands hs hv hsign hw'
    refine ⟨hleave, hmutable, fun m => ?_⟩
    rw [← hw.vaultTokens m]
    exact Nat.le_add_left _ _
  · rintro ⟨⟨h, hleave⟩, hmutable, hcover⟩
    obtain ⟨w, hwithdrawn⟩ := withdrawals_land hs hlegible hleave hsign hcover
    have hw := (Emptied.start owner hs).run hsign (withdrawals_withdraw node s) hwithdrawn
    have hexec : v.executed = false := by
      have hstatus := (hs.lawful owner).status v hv
      rw [hactive] at hstatus
      exact Bool.not_eq_true' _ ▸ hstatus.symm
    obtain ⟨w', hrevoked⟩ := revokeVault_progress hw.reachable.sound.regular.fresh
      (hw.leavable hleave) hsign hactive hexec hmutable
      (planLoads hw.reachable ((congrFun hw.vaultConfigs _).trans hv))
    have hrevoked : exec c (.revokeVault ⟨owner, .vault owner, .heartbeat (.vault owner),
        v.planKey (.vault owner)⟩) w = .ok w' := hrevoked
    rw [landsAll_append, hwithdrawn, Option.bind_some, landsAll_cons, revocation,
      Submission.lands, hrevoked]
    exact Option.some_ne_none _

end DeadMansVault.Device
