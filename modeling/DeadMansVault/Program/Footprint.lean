-- SUMMARY: What an instruction may touch: the accounts of its own vault, and the balance of its signer.
import DeadMansVault.Program.Step

/-!
# Footprints

`Confined c vault signer s s'` bounds the difference between two worlds by the
vault an instruction works on and the account that signed it. It composes, each
runtime call of a handler satisfies it, and so does every accepted instruction
(`exec_confined`). For every other vault an instruction is therefore no more
than a step of the environment.
-/

namespace DeadMansVault

open World

/-- The addresses derived from a vault, and the vault itself. -/
inductive Pubkey.Within (vault : Pubkey) : Pubkey → Prop
  | self : Within vault vault
  | heartbeat : Within vault (.heartbeat vault)
  | execution : Within vault (.execution vault)
  | assetPlan : Within vault (.assetPlan vault)
  | tokenDist (mint : Pubkey) : Within vault (.tokenDist vault mint)
  | associatedToken (mint : Pubkey) (program : TokenProgram) :
      Within vault (.associatedToken vault mint program)

/-- The value a movement takes comes from the signer or from the vault. -/
def Movement.Funded (vault signer : Pubkey) (s : World) (mv : Movement) : Prop :=
  match mv.asset with
  | .sol => mv.source = signer ∨ Pubkey.Within vault mv.source
  | .token mint => ∃ program, s.tokenAccounts mv.source = some ⟨some program, mint, vault⟩

/-- The movement names its recipient rightly: the destination, or the owner of the
    token account it goes to. -/
def Movement.Delivered (s : World) (mv : Movement) : Prop :=
  match mv.asset with
  | .sol => mv.recipient = mv.dest
  | .token mint => ∃ program, s.tokenAccounts mv.dest = some ⟨program, mint, mv.recipient⟩

/-- The difference between two worlds that an instruction on `vault`, signed by
    `signer`, can make. -/
structure Confined (c : Cluster) (vault signer : Pubkey) (s s' : World) : Prop where
  regular : s.Regular c → s'.Regular c
  now : s'.now = s.now
  mints : s'.mints = s.mints
  withheldFees : s'.withheldFees = s.withheldFees
  vaultConfigs : ∀ k, k ≠ vault → s'.vaultConfigs k = s.vaultConfigs k
  heartbeatRecords : ∀ k, k ≠ .heartbeat vault → s'.heartbeatRecords k = s.heartbeatRecords k
  assetPlans : ∀ k, k ≠ .assetPlan vault → s'.assetPlans k = s.assetPlans k
  executionLogs : ∀ k, k ≠ .execution vault → s'.executionLogs k = s.executionLogs k
  tokenDists : ∀ k, (∀ mint, k ≠ .tokenDist vault mint) → s'.tokenDists k = s.tokenDists k
  lamports : ∀ k, k ≠ signer → ¬ Pubkey.Within vault k → s.lamports k ≤ s'.lamports k
  tokenAccounts : ∀ k account, s'.tokenAccounts k = some account →
    s.tokenAccounts k = some account
  tokens : ∀ k account, s.tokenAccounts k = some account → account.owner ≠ vault →
    s'.tokenAccounts k = some account ∧ s.tokenAmounts k ≤ s'.tokenAmounts k
  vacant : ∀ k, s.tokenAccounts k = none → s'.tokenAmounts k = s.tokenAmounts k
  moved : ∃ ms, s'.moved = s.moved ++ ms ∧
    ∀ mv ∈ ms, mv.Funded vault signer s ∧ mv.Delivered s

/-! ## Regularity through the runtime calls -/

namespace World.Regular

variable {c : Cluster} {s : World}

theorem putVaultConfig (h : s.Regular c) (k : Pubkey) (v : Option VaultConfig) :
    (s.putVaultConfig k v).Regular c :=
  ⟨h.clock, h.lamportSupply, h.tokenSupply, h.vacant, h.vaultAtas, h.defaultMint⟩

theorem putHeartbeatRecord (h : s.Regular c) (k : Pubkey) (r : Option HeartbeatRecord) :
    (s.putHeartbeatRecord k r).Regular c :=
  ⟨h.clock, h.lamportSupply, h.tokenSupply, h.vacant, h.vaultAtas, h.defaultMint⟩

theorem putAssetPlan (h : s.Regular c) (k : Pubkey) (p : Option AssetPlan) :
    (s.putAssetPlan k p).Regular c :=
  ⟨h.clock, h.lamportSupply, h.tokenSupply, h.vacant, h.vaultAtas, h.defaultMint⟩

theorem putExecutionLog (h : s.Regular c) (k : Pubkey) (l : Option ExecutionLog) :
    (s.putExecutionLog k l).Regular c :=
  ⟨h.clock, h.lamportSupply, h.tokenSupply, h.vacant, h.vaultAtas, h.defaultMint⟩

theorem putTokenDist (h : s.Regular c) (k : Pubkey) (d : Option TokenDist) :
    (s.putTokenDist k d).Regular c :=
  ⟨h.clock, h.lamportSupply, h.tokenSupply, h.vacant, h.vaultAtas, h.defaultMint⟩

theorem fresh (h : s.Regular c) : s.fresh.Regular c :=
  ⟨h.clock, h.lamportSupply, h.tokenSupply, h.vacant, h.vaultAtas, h.defaultMint⟩

theorem sendLamports (h : s.Regular c) {source dest : Pubkey} {n : Nat}
    (hn : n ≤ s.lamports source) (purpose : Purpose) :
    (s.sendLamports source dest n purpose).Regular c :=
  ⟨h.clock, h.lamportSupply.move hn, h.tokenSupply, h.vacant, h.vaultAtas, h.defaultMint⟩

/-- A credit of lamports fits because all lamports together do. -/
theorem lamports_fit (h : s.Regular c) {source dest : Pubkey} {n : Nat}
    (hn : n ≤ s.lamports source) :
    Function.update s.lamports source (s.lamports source - n) dest + n ≤ u64Max :=
  h.lamportSupply.credit_le hn

private theorem mintLedger_of_counts {mint k owner : Pubkey}
    (h : s.tokenAccounts k = some ⟨some (c.tokenProgram mint), mint, owner⟩) :
    s.mintLedger c mint k = s.tokenAmounts k := by
  simp [World.mintLedger, h]

/-- A transfer of tokens is a transfer in the ledger of its own mint and none in
    any other. -/
theorem mintLedger_sendTokens {source dest mint recipient a b : Pubkey} {n : Nat}
    {purpose : Purpose} (hs : s.tokenAccounts source = some ⟨some (c.tokenProgram mint), mint, a⟩)
    (hd : s.tokenAccounts dest = some ⟨some (c.tokenProgram mint), mint, b⟩)
    (hn : n ≤ s.tokenAmounts source) (mint' : Pubkey) :
    (s.sendTokens source mint dest recipient n purpose).mintLedger c mint' =
      if mint' = mint then Ledger.move (s.mintLedger c mint) source dest n
      else s.mintLedger c mint' := by
  funext k
  by_cases hm : mint' = mint
  · subst hm
    have hsrc := mintLedger_of_counts hs
    have hmove := Ledger.move_add (s.mintLedger c mint') source dest (hsrc ▸ hn) k
    have hamount := Ledger.move_add s.tokenAmounts source dest hn k
    simp only [if_true]
    cases hk : s.tokenAccounts k with
    | none =>
        have hks : k ≠ source := by rintro rfl; simp [hs] at hk
        have hkd : k ≠ dest := by rintro rfl; simp [hd] at hk
        rw [Ledger.move_of_ne hks hkd]
        simp [World.mintLedger, hk]
    | some account =>
        by_cases hcount : account.program = some (c.tokenProgram mint') ∧ account.mint = mint'
        · simp only [World.mintLedger, World.sendTokens, hk, hcount, and_self, if_true] at hmove ⊢
          omega
        · have hks : k ≠ source := by
            rintro rfl
            rw [hs, Option.some.injEq] at hk
            exact hcount (by simp [← hk])
          have hkd : k ≠ dest := by
            rintro rfl
            rw [hd, Option.some.injEq] at hk
            exact hcount (by simp [← hk])
          rw [Ledger.move_of_ne hks hkd]
          simp [World.mintLedger, hk, hcount]
  · simp only [hm, if_false]
    cases hk : s.tokenAccounts k with
    | none => simp [World.mintLedger, hk]
    | some account =>
        by_cases hcount : account.program = some (c.tokenProgram mint') ∧ account.mint = mint'
        · have hks : k ≠ source := by
            rintro rfl
            rw [hs, Option.some.injEq] at hk
            exact hm (by rw [← hcount.2, ← hk])
          have hkd : k ≠ dest := by
            rintro rfl
            rw [hd, Option.some.injEq] at hk
            exact hm (by rw [← hcount.2, ← hk])
          simp [World.mintLedger, hk, Ledger.move_of_ne hks hkd]
        · simp [World.mintLedger, hk, hcount]

theorem sendTokens (h : s.Regular c) {source dest mint a b : Pubkey} {n : Nat}
    (hs : s.tokenAccounts source = some ⟨some (c.tokenProgram mint), mint, a⟩)
    (hd : s.tokenAccounts dest = some ⟨some (c.tokenProgram mint), mint, b⟩)
    (hn : n ≤ s.tokenAmounts source) (recipient : Pubkey) (purpose : Purpose) :
    (s.sendTokens source mint dest recipient n purpose).Regular c := by
  refine ⟨h.clock, h.lamportSupply, ?_, ?_, h.vaultAtas, h.defaultMint⟩
  · intro mint'
    rw [mintLedger_sendTokens hs hd hn]
    split
    · exact (h.tokenSupply mint).move (mintLedger_of_counts hs ▸ hn)
    · exact h.tokenSupply mint'
  · intro k hk
    have hks : k ≠ source := by rintro rfl; simp [hs] at hk
    have hkd : k ≠ dest := by rintro rfl; simp [hd] at hk
    have hzero := h.vacant k hk
    simp [Ledger.move_of_ne hks hkd, hzero]

/-- What a vault holds in a canonical account fits, like every token amount. -/
theorem tokens_le (h : s.Regular c) (o mint : Pubkey) :
    s.tokenAmounts (World.canonicalAta c (.vault o) mint) ≤ u64Max := by
  cases hacc : s.tokenAccounts (World.canonicalAta c (.vault o) mint) with
  | none => simp [h.vacant _ hacc]
  | some account =>
      rw [h.vaultAtas o mint _ account hacc] at hacc
      rw [← mintLedger_of_counts hacc]
      exact (h.tokenSupply mint).le _

/-- A credit of tokens fits because the supply of the mint does. -/
theorem tokens_fit (h : s.Regular c) {source dest mint a b : Pubkey} {n : Nat}
    (hs : s.tokenAccounts source = some ⟨some (c.tokenProgram mint), mint, a⟩)
    (hd : s.tokenAccounts dest = some ⟨some (c.tokenProgram mint), mint, b⟩)
    (hn : n ≤ s.tokenAmounts source) :
    Function.update s.tokenAmounts source (s.tokenAmounts source - n) dest + n ≤ u64Max := by
  have hsrc := mintLedger_of_counts hs
  have hdst := mintLedger_of_counts hd
  have hfit := (h.tokenSupply mint).credit_le (a := source) (b := dest) (hsrc ▸ hn)
  by_cases hsd : dest = source
  · subst hsd
    simpa [hsrc] using hfit
  · simpa [hsd, hdst] using hfit

theorem dropTokenAccount (h : s.Regular c) {k : Pubkey} (hz : s.tokenAmounts k = 0) :
    (s.dropTokenAccount k).Regular c := by
  refine ⟨h.clock, h.lamportSupply, ?_, ?_, ?_, h.defaultMint⟩
  · intro mint
    have hsame : (s.dropTokenAccount k).mintLedger c mint = s.mintLedger c mint := by
      funext k'
      by_cases hk : k' = k
      · subst hk
        cases hacc : s.tokenAccounts k' <;> simp [World.mintLedger, hacc, hz]
      · simp [World.mintLedger, hk]
    rw [hsame]
    exact h.tokenSupply mint
  · intro k' hk'
    by_cases hk : k' = k
    · subst hk; exact hz
    · exact h.vacant k' (by simpa [hk] using hk')
  · intro owner mint program account hacc
    apply h.vaultAtas
    by_cases hk : Pubkey.associatedToken (.vault owner) mint program = k
    · simp [hk] at hacc
    · simpa [hk] using hacc

end World.Regular

/-! ## Composing footprints -/

namespace Confined

variable {c : Cluster} {vault signer : Pubkey} {s s' s'' : World}

theorem refl (s : World) : Confined c vault signer s s where
  regular h := h
  now := rfl
  mints := rfl
  withheldFees := rfl
  vaultConfigs _ _ := rfl
  heartbeatRecords _ _ := rfl
  assetPlans _ _ := rfl
  executionLogs _ _ := rfl
  tokenDists _ _ := rfl
  lamports _ _ _ := le_rfl
  tokenAccounts _ _ h := h
  tokens _ _ h _ := ⟨h, le_rfl⟩
  vacant _ _ := rfl
  moved := ⟨[], by simp, by simp⟩

/-- A movement funded after the first part was funded before it. -/
theorem funded (h : Confined c vault signer s s') {mv : Movement}
    (hmv : mv.Funded vault signer s') : mv.Funded vault signer s := by
  unfold Movement.Funded at hmv ⊢
  cases hasset : mv.asset with
  | sol => simpa [hasset] using hmv
  | token mint =>
      simp only [hasset] at hmv ⊢
      obtain ⟨program, hacc⟩ := hmv
      exact ⟨program, h.tokenAccounts _ _ hacc⟩

theorem delivered (h : Confined c vault signer s s') {mv : Movement} (hmv : mv.Delivered s') :
    mv.Delivered s := by
  unfold Movement.Delivered at hmv ⊢
  cases hasset : mv.asset with
  | sol => simpa [hasset] using hmv
  | token mint =>
      simp only [hasset] at hmv ⊢
      obtain ⟨program, hacc⟩ := hmv
      exact ⟨program, h.tokenAccounts _ _ hacc⟩

theorem trans (h : Confined c vault signer s s') (h' : Confined c vault signer s' s'') :
    Confined c vault signer s s'' where
  regular hp := h'.regular (h.regular hp)
  now := h'.now.trans h.now
  mints := h'.mints.trans h.mints
  withheldFees := h'.withheldFees.trans h.withheldFees
  vaultConfigs k hk := (h'.vaultConfigs k hk).trans (h.vaultConfigs k hk)
  heartbeatRecords k hk := (h'.heartbeatRecords k hk).trans (h.heartbeatRecords k hk)
  assetPlans k hk := (h'.assetPlans k hk).trans (h.assetPlans k hk)
  executionLogs k hk := (h'.executionLogs k hk).trans (h.executionLogs k hk)
  tokenDists k hk := (h'.tokenDists k hk).trans (h.tokenDists k hk)
  lamports k hs hw := (h.lamports k hs hw).trans (h'.lamports k hs hw)
  tokenAccounts k a ha := h.tokenAccounts k a (h'.tokenAccounts k a ha)
  tokens k a ha ho := by
    obtain ⟨hacc, hle⟩ := h.tokens k a ha ho
    obtain ⟨hacc', hle'⟩ := h'.tokens k a hacc ho
    exact ⟨hacc', hle.trans hle'⟩
  vacant k hk := by
    have hnone : s'.tokenAccounts k = none := by
      cases ha : s'.tokenAccounts k with
      | none => rfl
      | some a => simpa [hk] using h.tokenAccounts k a ha
    exact (h'.vacant k hnone).trans (h.vacant k hk)
  moved := by
    obtain ⟨ms, hms, hf⟩ := h.moved
    obtain ⟨ms', hms', hf'⟩ := h'.moved
    refine ⟨ms ++ ms', by simp [hms', hms], ?_⟩
    intro mv hmv
    rcases List.mem_append.mp hmv with hmv | hmv
    · exact hf mv hmv
    · exact ⟨h.funded (hf' mv hmv).1, h.delivered (hf' mv hmv).2⟩

/-! ### Writing accounts -/

theorem putVaultConfig (v : Option VaultConfig) :
    Confined c vault signer s (s.putVaultConfig vault v) :=
  { (refl s : Confined c vault signer s s) with
    regular := fun h => h.putVaultConfig vault v
    vaultConfigs := fun k hk => by simp [hk] }

theorem putHeartbeatRecord (h : Option HeartbeatRecord) :
    Confined c vault signer s (s.putHeartbeatRecord (.heartbeat vault) h) :=
  { (refl s : Confined c vault signer s s) with
    regular := fun hp => hp.putHeartbeatRecord _ h
    heartbeatRecords := fun k hk => by simp [hk] }

theorem putAssetPlan (p : Option AssetPlan) :
    Confined c vault signer s (s.putAssetPlan (.assetPlan vault) p) :=
  { (refl s : Confined c vault signer s s) with
    regular := fun h => h.putAssetPlan _ p
    assetPlans := fun k hk => by simp [hk] }

theorem putExecutionLog (l : Option ExecutionLog) :
    Confined c vault signer s (s.putExecutionLog (.execution vault) l) :=
  { (refl s : Confined c vault signer s s) with
    regular := fun h => h.putExecutionLog _ l
    executionLogs := fun k hk => by simp [hk] }

theorem putTokenDist (mint : Pubkey) (d : Option TokenDist) :
    Confined c vault signer s (s.putTokenDist (.tokenDist vault mint) d) :=
  { (refl s : Confined c vault signer s s) with
    regular := fun h => h.putTokenDist _ d
    tokenDists := fun k hk => by simp [hk mint] }

theorem dropTokenAccount {k : Pubkey}
    (howner : ∀ a, s.tokenAccounts k = some a → a.owner = vault) (hz : s.tokenAmounts k = 0) :
    Confined c vault signer s (s.dropTokenAccount k) :=
  { (refl s : Confined c vault signer s s) with
    regular := fun h => h.dropTokenAccount hz
    tokenAccounts := fun k' a ha => by
      by_cases hk : k' = k
      · simp [hk] at ha
      · simpa [hk] using ha
    tokens := fun k' a ha ho => by
      have hk : k' ≠ k := by
        rintro rfl
        exact ho (howner a ha)
      simp [hk, ha] }

/-! ### Moving value -/

theorem sendLamports {source dest : Pubkey} {n : Nat} {purpose : Purpose}
    (hsource : source = signer ∨ Pubkey.Within vault source) (hn : n ≤ s.lamports source) :
    Confined c vault signer s (s.sendLamports source dest n purpose) :=
  { (refl s : Confined c vault signer s s) with
    regular := fun h => h.sendLamports hn purpose
    lamports := fun k hs hw => by
      apply Ledger.le_move
      rintro rfl
      exact hsource.elim hs hw
    moved := ⟨[_], rfl, by simpa [Movement.Funded, Movement.Delivered] using hsource⟩ }

theorem paySol {source dest : Pubkey} {n : Nat} {purpose : Purpose}
    (hsource : source = signer ∨ Pubkey.Within vault source) (hn : n ≤ s.lamports source) :
    Confined c vault signer s (s.paySol source dest n purpose) := by
  rw [paySol_eq]
  split
  · exact sendLamports hsource hn
  · exact refl s

theorem closePair {dest : Pubkey} : Confined c vault signer s (s.closePair vault dest) := by
  unfold World.closePair
  exact (((sendLamports (.inr .self) le_rfl).trans (putVaultConfig none)).trans
    (sendLamports (.inr .heartbeat) le_rfl)).trans (putHeartbeatRecord none)

theorem closePlan {config : VaultConfig} {dest : Pubkey} :
    Confined c vault signer s (s.closePlan config vault dest) := by
  unfold World.closePlan
  split
  · exact (sendLamports (.inr .assetPlan) le_rfl).trans (putAssetPlan none)
  · exact refl s

theorem sendTokens {source dest mint recipient : Pubkey} {n : Nat} {purpose : Purpose}
    (hs : s.tokenAccounts source = some ⟨some (c.tokenProgram mint), mint, vault⟩)
    (hd : s.tokenAccounts dest = some ⟨some (c.tokenProgram mint), mint, recipient⟩)
    (hn : n ≤ s.tokenAmounts source) :
    Confined c vault signer s (s.sendTokens source mint dest recipient n purpose) :=
  { (refl s : Confined c vault signer s s) with
    regular := fun h => h.sendTokens hs hd hn recipient purpose
    tokens := fun k a ha ho => by
      refine ⟨ha, Ledger.le_move ?_⟩
      rintro rfl
      rw [hs, Option.some.injEq] at ha
      exact ho (by rw [← ha])
    vacant := fun k hk => by
      apply Ledger.move_of_ne
      · rintro rfl
        simp [hs] at hk
      · rintro rfl
        simp [hd] at hk
    moved := ⟨[_], rfl, by simp [Movement.Funded, Movement.Delivered, hs, hd]⟩ }

theorem payTokens {source dest mint recipient : Pubkey} {n : Nat} {purpose : Purpose}
    (hacc : 0 < n → s.tokenAccounts source = some ⟨some (c.tokenProgram mint), mint, vault⟩ ∧
      s.tokenAccounts dest = some ⟨some (c.tokenProgram mint), mint, recipient⟩)
    (hn : n ≤ s.tokenAmounts source) :
    Confined c vault signer s (s.payTokens source mint dest recipient n purpose) := by
  rw [payTokens_eq]
  split
  · rename_i hpos
    exact sendTokens (hacc hpos).1 (hacc hpos).2 hn
  · exact refl s

/-- A loop stays within the footprint of its turns. -/
theorem loop {ι : Type} {R : World → ι → World → Prop} {es : List ι}
    (hR : ∀ s e s', R s e s' → Confined c vault signer s s') (h : Trace R s es s') :
    Confined c vault signer s s' :=
  h.preserves (P := fun t => Confined c vault signer s t)
    (fun t e t' ht hstep => ht.trans (hR t e t' hstep)) (refl s)

end Confined

/-! ## The footprint of each instruction -/

section

variable {c : Cluster} {s s' : World}

theorem initializeVault_confined {ctx : InitializeVault} {params : InitializeVaultParams}
    (h : initializeVault c ctx params s = .ok s') :
    Confined c ctx.vaultConfig ctx.owner s s' := by
  obtain ⟨_, _, _, _, _, -, -, -, -, hn, -, hn', -, -, -, -, -, -, -, -, -, hfee, rfl⟩ :=
    initializeVault_ok h
  exact ((((Confined.sendLamports (.inl rfl) hn).trans (.sendLamports (.inl rfl) hn')).trans
    (.putVaultConfig _)).trans (.putHeartbeatRecord _)).trans (.sendLamports (.inl rfl) hfee)

theorem updateVault_confined {ctx : UpdateVault} {params : UpdateVaultParams}
    (h : updateVault c ctx params s = .ok s') : Confined c ctx.vaultConfig ctx.owner s s' := by
  obtain ⟨_, _, _, -, -, -, -, -, -, -, -, -, -, rfl⟩ := updateVault_ok h
  exact .putVaultConfig _

theorem recordHeartbeat_confined {ctx : RecordHeartbeat} {method : HeartbeatMethod}
    (h : recordHeartbeat ctx method s = .ok s') : Confined c ctx.vaultConfig ctx.agent s s' := by
  obtain ⟨_, _, _, -, -, -, -, -, -, -, -, rfl⟩ := recordHeartbeat_ok h
  exact .putHeartbeatRecord _

theorem rotateAgent_confined {ctx : RotateAgent} {newAgentPubkey : Pubkey}
    (h : rotateAgent ctx newAgentPubkey s = .ok s') :
    Confined c ctx.vaultConfig ctx.owner s s' := by
  obtain ⟨_, _, _, _, -, -, -, -, -, -, -, -, -, -, rfl⟩ := rotateAgent_ok (c := c) h
  exact (Confined.putVaultConfig _).trans (.putHeartbeatRecord _)

theorem setAssetPlan_confined {ctx : SetAssetPlan} {assignments : List AssetAssignment}
    (h : setAssetPlan c ctx assignments s = .ok s') :
    Confined c ctx.vaultConfig ctx.owner s s' := by
  obtain ⟨_, _, _, -, -, -, -, -, -, -, hn, -, rfl⟩ := setAssetPlan_ok h
  exact ((Confined.sendLamports (.inl rfl) hn).trans (.putAssetPlan _)).trans (.putVaultConfig _)

theorem updateAssetPlan_confined {ctx : UpdateAssetPlan} {assignments : List AssetAssignment}
    (h : updateAssetPlan ctx assignments s = .ok s') :
    Confined c ctx.vaultConfig ctx.owner s s' := by
  obtain ⟨_, _, -, -, -, -, -, -, -, -, rfl⟩ := updateAssetPlan_ok h
  exact .putAssetPlan _

theorem clearAssetPlan_confined {ctx : ClearAssetPlan} (h : clearAssetPlan ctx s = .ok s') :
    Confined c ctx.vaultConfig ctx.owner s s' := by
  obtain ⟨_, _, -, -, -, -, -, -, -, rfl⟩ := clearAssetPlan_ok h
  exact ((Confined.sendLamports (.inr .assetPlan) le_rfl).trans (.putAssetPlan _)).trans
    (.putVaultConfig _)

theorem withdrawFromVault_confined {ctx : WithdrawFromVault} {amount : Nat}
    (h : withdrawFromVault c ctx amount s = .ok s') :
    Confined c ctx.vaultConfig ctx.owner s s' := by
  obtain ⟨_, _, _, -, -, -, -, hs, hd, hn, rfl⟩ := withdrawFromVault_ok h
  exact .sendTokens hs hd hn

theorem withdrawSolFromVault_confined {ctx : WithdrawSolFromVault} {amount : Nat}
    (h : withdrawSolFromVault c ctx amount s = .ok s') :
    Confined c ctx.vaultConfig ctx.owner s s' := by
  obtain ⟨_, _, -, -, -, -, hn, rfl⟩ := withdrawSolFromVault_ok h
  exact .sendLamports (.inr .self) (by omega)

theorem revokeVault_confined {ctx : RevokeVault} (h : revokeVault ctx s = .ok s') :
    Confined c ctx.vaultConfig ctx.owner s s' := by
  obtain ⟨_, _, -, -, -, -, -, -, -, rfl⟩ := revokeVault_ok h
  exact Confined.closePlan.trans .closePair

theorem closeRevokedVault_confined {ctx : CloseRevokedVault}
    (h : closeRevokedVault ctx s = .ok s') : Confined c ctx.vaultConfig ctx.owner s s' := by
  obtain ⟨_, _, -, -, -, -, -, -, -, rfl⟩ := closeRevokedVault_ok h
  exact .closePair

theorem beginExecution_confined {ctx : BeginExecution} (h : beginExecution c ctx s = .ok s') :
    Confined c ctx.vaultConfig ctx.payer s s' := by
  obtain ⟨_, _, _, -, -, -, -, hn, -, -, -, -, -, rfl⟩ := beginExecution_ok h
  exact (Confined.sendLamports (.inl rfl) hn).trans (.putExecutionLog _)

theorem beginTokenDist_confined {ctx : BeginTokenDist} (hp : s.Regular c)
    (h : beginTokenDist c ctx s = .ok s') : Confined c ctx.vaultConfig ctx.payer s s' := by
  obtain ⟨_, _, _, -, -, -, -, hn, -, rfl⟩ := beginTokenDist_ok hp.vacant h
  exact ((Confined.sendLamports (.inl rfl) hn).trans (.putTokenDist _ _)).trans (.putVaultConfig _)

theorem executeSpecificAsset_confined {ctx : ExecuteSpecificAsset} {j : Nat}
    (h : executeSpecificAsset c ctx j s = .ok s') : Confined c ctx.vaultConfig ctx.payer s s' := by
  obtain ⟨_, _, _, _, _, _, _, -, -, -, -, -, -, -, -, -, -, -, -, -, hacc, rfl⟩ :=
    executeSpecificAsset_ok h
  exact (Confined.putAssetPlan _).trans (.payTokens hacc (min_le_right _ _))

theorem executeSpecificSol_confined {ctx : ExecuteSpecificSol} {j : Nat}
    (h : executeSpecificSol c ctx j s = .ok s') : Confined c ctx.vaultConfig ctx.payer s s' := by
  obtain ⟨_, _, _, _, _, -, -, -, -, -, -, -, -, -, rfl⟩ := executeSpecificSol_ok h
  refine (Confined.paySol (.inr .self) ?_).trans (.putAssetPlan _)
  omega

theorem paySolShare_confined {vaultKey signer : Pubkey} {benefs : List Beneficiary}
    {snapshot : Nat} {entry : Nat × AccountMeta}
    (h : paySolShare vaultKey (.execution vaultKey) benefs snapshot s entry = .ok s') :
    Confined c vaultKey signer s s' := by
  obtain ⟨_, _, -, -, ⟨-, rfl⟩ | ⟨-, -, hn, _, _, rfl⟩⟩ := paySolShare_ok h
  · exact .refl _
  · exact (Confined.paySol (.inr .self) hn).trans (.putExecutionLog _)

theorem executeSolShares_confined {ctx : ExecuteSolShares} {indices : List Nat}
    (h : executeSolShares ctx indices s = .ok s') : Confined c ctx.vaultConfig ctx.payer s s' := by
  obtain ⟨_, _, -, -, -, hrun⟩ := executeSolShares_ok h
  exact .loop (fun _ _ _ => paySolShare_confined) hrun

theorem payTokenShare_confined {ctx : ExecuteTokenShares} {benefs : List Beneficiary}
    {snapshot decimals : Nat} {entry : Nat × AccountMeta} {signer : Pubkey}
    (hkey : ctx.tokenDist = .tokenDist ctx.vaultConfig ctx.mint)
    (h : payTokenShare c ctx benefs snapshot decimals s entry = .ok s') :
    Confined c ctx.vaultConfig signer s s' := by
  obtain ⟨_, _, -, -, ⟨-, rfl⟩ | ⟨-, _, hd, hn, hacc, rfl⟩⟩ := payTokenShare_ok h
  · exact .refl _
  · rw [hkey]
    refine (Confined.putTokenDist _ _).trans (.payTokens ?_ hn)
    intro hpos
    obtain ⟨hs, rfl⟩ := hacc hpos
    exact ⟨hs, hd⟩

theorem executeTokenShares_confined {ctx : ExecuteTokenShares} {indices : List Nat}
    (h : executeTokenShares c ctx indices s = .ok s') :
    Confined c ctx.vaultConfig ctx.payer s s' := by
  obtain ⟨_, _, _, -, -, -, hkey, -, -, hrun⟩ := executeTokenShares_ok h
  exact .loop (fun _ _ _ => payTokenShare_confined hkey) hrun

theorem finalizeExecution_confined {ctx : FinalizeExecution}
    (h : finalizeExecution c ctx s = .ok s') : Confined c ctx.vaultConfig ctx.payer s s' := by
  obtain ⟨_, _, -, -, -, -, -, rfl⟩ := finalizeExecution_ok h
  refine ((Confined.putVaultConfig _).trans (.putExecutionLog _)).trans (.paySol (.inr .self) ?_)
  simp only [putExecutionLog_lamports, putVaultConfig_lamports]
  omega

theorem closeTokenDist_confined {ctx : CloseTokenDist} (h : closeTokenDist c ctx s = .ok s') :
    Confined c ctx.vaultConfig ctx.payer s s' := by
  obtain ⟨_, _, dest, recipient, _, _, -, -, -, -, -, -, hacc, rfl, ⟨_, _, hata⟩, hzero, rfl, rfl⟩ :=
    closeTokenDist_ok h
  have hsweep : Confined c ctx.vaultConfig ctx.payer s
      (s.payTokens (canonicalAta c ctx.vaultConfig ctx.mint) ctx.mint dest recipient
        (s.tokenAmounts (canonicalAta c ctx.vaultConfig ctx.mint)) .tokenDust) :=
    .payTokens (fun hpos => (hacc hpos).2) le_rfl
  refine ((((hsweep.trans (.sendLamports (.inr (.associatedToken _ _)) le_rfl)).trans
    (.dropTokenAccount ?_ ?_)).trans (.putVaultConfig _)).trans
    (.sendLamports (.inr (.tokenDist _)) le_rfl)).trans (.putTokenDist _ _)
  · simp [hata]
  · simpa using hzero

theorem settleAndClose_confined {vault : VaultConfig} {plan : Option AssetPlan}
    {vaultKey dest signer : Pubkey} {largestBenef : Option Pubkey}
    (h : settleAndClose c vault plan vaultKey (.heartbeat vaultKey) (.execution vaultKey) dest
      largestBenef s = .ok s') : Confined c vaultKey signer s s' := by
  obtain ⟨recipient, _, -, rfl, rfl⟩ := settleAndClose_ok h
  have hsweep : Confined c vaultKey signer s (s.paySol vaultKey recipient
      (s.lamports vaultKey - c.minimumBalance VaultConfig.space) .solDust) :=
    .paySol (.inr .self) (Nat.sub_le _ _)
  exact (((hsweep.trans .closePlan).trans .closePair).trans
    (.sendLamports (.inr .execution) le_rfl)).trans (.putExecutionLog _)

theorem closeExecutedVault_confined {ctx : CloseExecutedVault}
    (h : closeExecutedVault c ctx s = .ok s') : Confined c ctx.vaultConfig ctx.payer s s' := by
  obtain ⟨_, _, _, -, -, -, -, hsettle⟩ := closeExecutedVault_ok h
  exact settleAndClose_confined hsettle

theorem closeExecutedVaultByOwner_confined {ctx : CloseExecutedVaultByOwner}
    (h : closeExecutedVaultByOwner c ctx s = .ok s') :
    Confined c ctx.vaultConfig ctx.owner s s' := by
  obtain ⟨_, _, _, -, -, -, hsettle⟩ := closeExecutedVaultByOwner_ok h
  exact settleAndClose_confined hsettle

/-- Every accepted instruction stays within its footprint. -/
theorem exec_confined {i : Instruction} (hp : s.Regular c) (h : exec c i s = .ok s') :
    Confined c i.vaultKey i.signer s.fresh s' := by
  unfold exec Instruction.dispatch at h
  cases i with
  | initializeVault => exact initializeVault_confined h
  | updateVault => exact updateVault_confined h
  | recordHeartbeat => exact recordHeartbeat_confined h
  | rotateAgent => exact rotateAgent_confined h
  | revokeVault => exact revokeVault_confined h
  | closeRevokedVault => exact closeRevokedVault_confined h
  | closeExecutedVaultByOwner => exact closeExecutedVaultByOwner_confined h
  | closeExecutedVault => exact closeExecutedVault_confined h
  | withdrawFromVault => exact withdrawFromVault_confined h
  | withdrawSolFromVault => exact withdrawSolFromVault_confined h
  | setAssetPlan => exact setAssetPlan_confined h
  | updateAssetPlan => exact updateAssetPlan_confined h
  | clearAssetPlan => exact clearAssetPlan_confined h
  | beginExecution => exact beginExecution_confined h
  | beginTokenDist => exact beginTokenDist_confined hp.fresh h
  | executeSpecificAsset => exact executeSpecificAsset_confined h
  | executeSpecificSol => exact executeSpecificSol_confined h
  | executeSolShares => exact executeSolShares_confined h
  | executeTokenShares => exact executeTokenShares_confined h
  | finalizeExecution => exact finalizeExecution_confined h
  | closeTokenDist => exact closeTokenDist_confined h

/-! ## Where instructions apply -/

/-- The signer of an accepted instruction is a plain key, and its vault is the
    vault of some owner, by its address or because it holds a config. -/
theorem exec_addressed {i : Instruction} (hp : s.Regular c) (h : exec c i s = .ok s') :
    i.signer.canSign = true ∧
      ((∃ o, i.vaultKey = .vault o) ∨ ∃ v, s.vaultConfigs i.vaultKey = some v) := by
  unfold exec Instruction.dispatch at h
  cases i with
  | initializeVault =>
      obtain ⟨_, _, _, _, _, hsign, hseeds, -⟩ := initializeVault_ok h
      exact ⟨hsign, .inl ⟨_, hseeds⟩⟩
  | updateVault =>
      obtain ⟨_, _, _, hsign, hseeds, -⟩ := updateVault_ok h
      exact ⟨hsign, .inl ⟨_, hseeds⟩⟩
  | recordHeartbeat =>
      obtain ⟨_, _, _, hsign, -, hseeds, -⟩ := recordHeartbeat_ok h
      exact ⟨hsign, .inl ⟨_, hseeds⟩⟩
  | rotateAgent =>
      obtain ⟨_, _, _, _, hsign, hgate, -⟩ := rotateAgent_ok (c := c) h
      exact ⟨hsign, .inr ⟨_, hgate.config⟩⟩
  | revokeVault =>
      obtain ⟨_, _, hsign, hseeds, -⟩ := revokeVault_ok h
      exact ⟨hsign, .inl ⟨_, hseeds⟩⟩
  | closeRevokedVault =>
      obtain ⟨_, _, hsign, hseeds, -⟩ := closeRevokedVault_ok h
      exact ⟨hsign, .inl ⟨_, hseeds⟩⟩
  | closeExecutedVaultByOwner =>
      obtain ⟨_, _, _, hsign, hgate, -⟩ := closeExecutedVaultByOwner_ok h
      exact ⟨hsign, .inl ⟨_, hgate.seeds⟩⟩
  | closeExecutedVault =>
      obtain ⟨_, _, _, hsign, hgate, -⟩ := closeExecutedVault_ok h
      exact ⟨hsign, .inl ⟨_, hgate.seeds⟩⟩
  | withdrawFromVault =>
      obtain ⟨_, _, _, hsign, hseeds, -⟩ := withdrawFromVault_ok h
      exact ⟨hsign, .inl ⟨_, hseeds⟩⟩
  | withdrawSolFromVault =>
      obtain ⟨_, _, hsign, hseeds, -⟩ := withdrawSolFromVault_ok h
      exact ⟨hsign, .inl ⟨_, hseeds⟩⟩
  | setAssetPlan =>
      obtain ⟨_, _, _, hsign, hseeds, -⟩ := setAssetPlan_ok h
      exact ⟨hsign, .inl ⟨_, hseeds⟩⟩
  | updateAssetPlan =>
      obtain ⟨_, _, hsign, hseeds, -⟩ := updateAssetPlan_ok h
      exact ⟨hsign, .inl ⟨_, hseeds⟩⟩
  | clearAssetPlan =>
      obtain ⟨_, _, hsign, hseeds, -⟩ := clearAssetPlan_ok h
      exact ⟨hsign, .inl ⟨_, hseeds⟩⟩
  | beginExecution =>
      obtain ⟨_, _, _, hsign, -, -, -, -, hseeds, -⟩ := beginExecution_ok h
      exact ⟨hsign, .inl ⟨_, hseeds⟩⟩
  | beginTokenDist =>
      obtain ⟨_, _, _, hsign, hgate, -⟩ := beginTokenDist_ok hp.fresh.vacant h
      exact ⟨hsign, .inl ⟨_, hgate.seeds⟩⟩
  | executeSpecificAsset =>
      obtain ⟨_, _, _, _, _, _, _, hsign, hgate, -⟩ := executeSpecificAsset_ok h
      exact ⟨hsign, .inl ⟨_, hgate.seeds⟩⟩
  | executeSpecificSol =>
      obtain ⟨_, _, _, _, _, hsign, hgate, -⟩ := executeSpecificSol_ok h
      exact ⟨hsign, .inl ⟨_, hgate.seeds⟩⟩
  | executeSolShares =>
      obtain ⟨_, _, hsign, hgate, -⟩ := executeSolShares_ok h
      exact ⟨hsign, .inl ⟨_, hgate.seeds⟩⟩
  | executeTokenShares =>
      obtain ⟨_, _, _, hsign, -, hseeds, -⟩ := executeTokenShares_ok h
      exact ⟨hsign, .inl ⟨_, hseeds⟩⟩
  | finalizeExecution =>
      obtain ⟨_, _, hsign, hgate, -⟩ := finalizeExecution_ok h
      exact ⟨hsign, .inl ⟨_, hgate.seeds⟩⟩
  | closeTokenDist =>
      obtain ⟨_, _, _, _, _, _, hsign, -, hseeds, -⟩ := closeTokenDist_ok h
      exact ⟨hsign, .inl ⟨_, hseeds⟩⟩

/-- What holds of every reachable world, whatever its accounts say. -/
structure World.Sound (c : Cluster) (s : World) : Prop where
  regular : s.Regular c
  /-- Configs live at vault addresses only. -/
  homed : ∀ k v, s.vaultConfigs k = some v → ∃ o, k = .vault o

theorem exec_homed {i : Instruction} (hs : s.Sound c) (h : exec c i s = .ok s') :
    ∃ o, i.vaultKey = .vault o := by
  rcases (exec_addressed hs.regular h).2 with ho | ⟨v, hv⟩
  · exact ho
  · exact hs.homed _ v hv

theorem World.Sound.step {e : Event} (hs : s.Sound c) (h : Step c s e s') : s'.Sound c := by
  cases h with
  | rejected => exact hs
  | environment henv =>
      refine ⟨henv.regular, fun k v hv => ?_⟩
      rw [henv.vaultConfigs] at hv
      exact hs.homed k v hv
  | @executed i _ _ hexec =>
      have hfoot := exec_confined hs.regular hexec
      refine ⟨hfoot.regular hs.regular.fresh, fun k v hv => ?_⟩
      by_cases hk : k = i.vaultKey
      · rw [hk]
        exact exec_homed hs hexec
      · rw [hfoot.vaultConfigs k hk] at hv
        exact hs.homed k v hv

theorem Reachable.sound (h : Reachable c s) : s.Sound c := by
  refine h.invariant (fun s hinit => ⟨hinit.regular, fun k v hv => ?_⟩) fun _ _ _ => Sound.step
  rw [hinit.vaultConfigs k] at hv
  cases hv

end

end DeadMansVault
