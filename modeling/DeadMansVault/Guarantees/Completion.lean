-- SUMMARY: Anyone can take a due vault to the end of its execution, exactly when it owes nothing to itself.
import DeadMansVault.Estate.Obstruction
import DeadMansVault.Guarantees.Gates
import DeadMansVault.Program.Progress
import DeadMansVault.Program.Scenario

/-!
# Completion

An execution is over when every bit of both masks is set. A payer begins it, opens the
distributions of the bequeathed mints, pays the bequests in their order and then the shares,
and finalizes. Each of these steps goes through unless it would pay the vault itself.
-/

namespace DeadMansVault

open World

variable {c : Cluster} {o payer : Pubkey} {s s' s'' : World}

/-! ## Runs of one payer -/

/-- Anyone may submit it, and it takes an execution forward. -/
def Kind.executing : Kind → Bool
  | begin | openDist | payout | finalize => true
  | _ => false

/-- The payer submits such an instruction on the vault of `o`. -/
def Event.SubmittedBy (o payer : Pubkey) (e : Event) : Prop :=
  ∃ i moved, e = .executed i moved ∧ i.kind.executing = true ∧ i.signer = payer ∧
    i.vaultKey = .vault o

/-- A run of such instructions. -/
def Advances (c : Cluster) (o payer : Pubkey) (s s' : World) : Prop :=
  ∃ es, Trace (Step c) s es s' ∧ ∀ e ∈ es, e.SubmittedBy o payer

namespace Advances

theorem refl (s : World) : Advances c o payer s s := ⟨[], .nil s, nofun⟩

theorem trans (h : Advances c o payer s s') (h' : Advances c o payer s' s'') :
    Advances c o payer s s'' := by
  obtain ⟨es, hrun, hes⟩ := h
  obtain ⟨es', hrun', hes'⟩ := h'
  exact ⟨es ++ es', hrun.append hrun', List.forall_mem_append.mpr ⟨hes, hes'⟩⟩

theorem single {i : Instruction} (hkind : i.kind.executing = true) (hsigner : i.signer = payer)
    (ho : i.vaultKey = .vault o) (hexec : exec c i s = .ok s') : Advances c o payer s s' :=
  ⟨[_], .single (.executed hexec), fun _ he => ⟨i, _, List.mem_singleton.mp he, hkind, hsigner, ho⟩⟩

end Advances

/-! ## Token accounts -/

@[simps] def World.putTokenAccounts (s : World) (t : Pubkey → Option TokenAccount) : World :=
  { s with tokenAccounts := t }

/-- The associated token account of the wallet is created, if it is missing. -/
def World.createAta (c : Cluster) (s : World) (account : Pubkey × Pubkey) : World :=
  match s.tokenAccounts (canonicalAta c account.1 account.2) with
  | some _ => s
  | none => s.putTokenAccounts (Function.update s.tokenAccounts
      (canonicalAta c account.1 account.2)
      (some ⟨some (c.tokenProgram account.2), account.2, account.1⟩))

/-- So are those of a list of wallets and mints. -/
def World.createAtas (c : Cluster) (s : World) (accounts : List (Pubkey × Pubkey)) : World :=
  accounts.foldl (World.createAta c) s

/-- Nothing else changes. -/
theorem createAta_eq (s : World) (account : Pubkey × Pubkey) :
    ∃ t, s.createAta c account = s.putTokenAccounts t := by
  unfold World.createAta
  split
  · exact ⟨s.tokenAccounts, rfl⟩
  · exact ⟨_, rfl⟩

theorem createAtas_eq (s : World) (accounts : List (Pubkey × Pubkey)) :
    ∃ t, s.createAtas c accounts = s.putTokenAccounts t := by
  induction accounts generalizing s with
  | nil => exact ⟨s.tokenAccounts, rfl⟩
  | cons account rest ih =>
      obtain ⟨t, ht⟩ := createAta_eq (c := c) s account
      obtain ⟨t', ht'⟩ := ih (s.createAta c account)
      refine ⟨t', ht'.trans ?_⟩
      rw [ht]
      rfl

/-- What is there already stays. -/
theorem createAta_kept {account : Pubkey × Pubkey} {k : Pubkey} {a : TokenAccount}
    (h : s.tokenAccounts k = some a) : (s.createAta c account).tokenAccounts k = some a := by
  unfold World.createAta
  split
  · exact h
  · rename_i hnone
    have hne : k ≠ canonicalAta c account.1 account.2 := by
      rintro rfl
      rw [hnone] at h
      cases h
    exact (Function.update_of_ne hne _ _).trans h

theorem createAtas_kept {accounts : List (Pubkey × Pubkey)} {k : Pubkey} {a : TokenAccount}
    (h : s.tokenAccounts k = some a) : (s.createAtas c accounts).tokenAccounts k = some a := by
  induction accounts generalizing s with
  | nil => exact h
  | cons account rest ih => exact ih (createAta_kept h)

/-- What was missing is there. -/
theorem createAtas_created {accounts : List (Pubkey × Pubkey)} {wallet mint : Pubkey}
    (hmem : (wallet, mint) ∈ accounts)
    (hnone : s.tokenAccounts (canonicalAta c wallet mint) = none) :
    (s.createAtas c accounts).tokenAccounts (canonicalAta c wallet mint) =
      some ⟨some (c.tokenProgram mint), mint, wallet⟩ := by
  induction accounts generalizing s with
  | nil => cases hmem
  | cons account rest ih =>
      by_cases heq : account = (wallet, mint)
      · subst heq
        have hnew : (s.createAta c (wallet, mint)).tokenAccounts (canonicalAta c wallet mint) =
            some ⟨some (c.tokenProgram mint), mint, wallet⟩ := by
          simp [World.createAta, hnone]
        show ((s.createAta c (wallet, mint)).createAtas c rest).tokenAccounts _ = _
        exact createAtas_kept hnew
      · refine ih ((List.mem_cons.mp hmem).resolve_left (Ne.symm heq)) ?_
        have hne : canonicalAta c wallet mint ≠ canonicalAta c account.1 account.2 := by
          intro hkey
          simp only [canonicalAta, Pubkey.associatedToken.injEq] at hkey
          exact heq (Prod.ext hkey.1.symm hkey.2.1.symm)
        unfold World.createAta
        split
        · exact hnone
        · exact (Function.update_of_ne hne _ _).trans hnone

/-- Anyone can create them. -/
theorem createAta_environment (hs : s.Regular c) (account : Pubkey × Pubkey) :
    Environment c s (s.createAta c account) := by
  have hkept : ∀ k a, s.tokenAccounts k = some a →
      (s.createAta c account).tokenAccounts k = some a := fun k a h => createAta_kept h
  have hcreated : ∀ k a, (s.createAta c account).tokenAccounts k = some a →
      s.tokenAccounts k = some a ∨
        k = canonicalAta c account.1 account.2 ∧
          a = ⟨some (c.tokenProgram account.2), account.2, account.1⟩ := by
    intro k a ha
    unfold World.createAta at ha
    split at ha
    · exact .inl ha
    · by_cases hk : k = canonicalAta c account.1 account.2
      · subst hk
        rw [putTokenAccounts_tokenAccounts, Function.update_self] at ha
        exact .inr ⟨rfl, (Option.some.inj ha).symm⟩
      · exact .inl ((Function.update_of_ne hk _ _).symm.trans ha)
  obtain ⟨t, ht⟩ := createAta_eq (c := c) s account
  rw [ht] at hkept hcreated ⊢
  have hledger : ∀ mint, (s.putTokenAccounts t).mintLedger c mint =
      s.mintLedger c mint := by
    intro mint
    funext k
    unfold World.mintLedger
    rw [putTokenAccounts_tokenAmounts]
    cases hk : s.tokenAccounts k with
    | some a => simp only [hkept k a hk]
    | none =>
        have hzero := hs.vacant k hk
        dsimp only
        split
        · rw [hzero, ite_self]
        · rfl
  have hregular : (s.putTokenAccounts t).Regular c := by
    refine ⟨hs.clock, hs.lamportSupply, fun mint => ?_, fun k hk => ?_,
      fun owner mint program a ha => ?_, hs.defaultMint⟩
    · rw [hledger mint]
      exact hs.tokenSupply mint
    · refine hs.vacant k (Option.eq_none_iff_forall_ne_some.mpr fun a ha => ?_)
      rw [hkept k a ha] at hk
      cases hk
    · rcases hcreated _ a ha with hold | ⟨hkey, rfl⟩
      · exact hs.vaultAtas owner mint program a hold
      · simp only [canonicalAta, Pubkey.associatedToken.injEq] at hkey
        obtain ⟨howner, rfl, rfl⟩ := hkey
        rw [howner]
  exact ⟨hregular, le_rfl, rfl, rfl, rfl, rfl, rfl, fun _ _ => le_rfl,
    fun k a owner ha _ _ => ⟨hkept k a ha, le_rfl⟩⟩

theorem createAtas_reachable (h : Reachable c s) (accounts : List (Pubkey × Pubkey)) :
    Reachable c (s.createAtas c accounts) := by
  induction accounts generalizing s with
  | nil => exact h
  | cons account rest ih =>
      exact ih (h.step (.environment (createAta_environment h.sound.regular account)))

/-- Anyone can harvest the fees that are withheld in token accounts. -/
theorem harvest_environment (hs : s.Regular c) (ks : List Pubkey) :
    Environment c s (s.harvest ks) where
  regular := ⟨hs.clock, hs.lamportSupply, hs.tokenSupply, hs.vacant, hs.vaultAtas, hs.defaultMint⟩
  clock := le_rfl
  vaultConfigs := rfl
  heartbeatRecords := rfl
  assetPlans := rfl
  executionLogs := rfl
  tokenDists := rfl
  lamports _ _ := le_rfl
  vaultTokens _ _ _ h _ _ := ⟨h, le_rfl⟩

theorem harvest_reachable (h : Reachable c s) (ks : List Pubkey) : Reachable c (s.harvest ks) :=
  h.step (.environment (harvest_environment h.sound.regular ks))

/-! ## Executions that can go on -/

/-- The bequeathed mints load, and the vault and the beneficiaries have token accounts for them. -/
structure Served (c : Cluster) (o : Pubkey) (s : World) : Prop where
  mint : ∀ a ∈ (s.estate c o).assignments, a.mint ≠ .default → (s.mints a.mint).isSome = true
  vaultAta : ∀ a ∈ (s.estate c o).assignments, a.mint ≠ .default →
    s.tokenAccounts (canonicalAta c (.vault o) a.mint) =
      some ⟨some (c.tokenProgram a.mint), a.mint, .vault o⟩
  account : ∀ v, s.vaultConfigs (.vault o) = some v → ∀ a ∈ (s.estate c o).assignments,
    a.mint ≠ .default → ∀ b, v.beneficiaries[a.beneficiaryIndex]? = some b →
      ∃ dest, s.tokenAccounts dest = some ⟨some (c.tokenProgram a.mint), a.mint, b.wallet⟩

structure Ready (c : Cluster) (o : Pubkey) (s : World) : Prop where
  reachable : Reachable c s
  unobstructed : (s.estate c o).Unobstructed c o
  served : Served c o s

/-- The five instructions of a distribution. -/
def Instruction.distributes : Instruction → Bool
  | beginExecution _ | beginTokenDist _ | executeSpecificAsset _ _ | executeSpecificSol _ _
  | executeSolShares _ _ => true
  | _ => false

theorem Instruction.Unfolds.distributes {i : Instruction} {deeds : List Deed}
    (h : i.Unfolds deeds) (hi : i.distributes = true) : ∀ d ∈ deeds, d.distributes = true := by
  intro d hd
  cases i with
  | executeSolShares =>
      obtain ⟨j, rfl⟩ := h d hd
      rfl
  | beginExecution | beginTokenDist | executeSpecificAsset | executeSpecificSol =>
      obtain rfl : deeds = _ := h
      obtain rfl := List.mem_singleton.mp hd
      rfl
  | _ => cases hi

theorem Instruction.distributes_executing {i : Instruction} (hi : i.distributes = true) :
    i.kind.executing = true := by
  cases i <;> first | rfl | cases hi

/-- They leave the token accounts where they are. -/
theorem exec_tokenAccounts {i : Instruction} (hs : s.Regular c) (hi : i.distributes = true)
    (h : exec c i s = .ok s') : s'.tokenAccounts = s.tokenAccounts := by
  unfold exec Instruction.dispatch at h
  cases i with
  | beginExecution =>
      obtain ⟨_, _, _, -, -, -, -, -, -, -, -, -, -, rfl⟩ := beginExecution_ok h
      rfl
  | beginTokenDist =>
      obtain ⟨_, _, _, -, -, -, -, -, -, rfl⟩ := beginTokenDist_ok hs.fresh.vacant h
      rfl
  | executeSpecificAsset =>
      obtain ⟨_, _, _, _, _, _, _, -, -, -, -, -, -, -, -, -, -, -, -, -, -, rfl⟩ :=
        executeSpecificAsset_ok h
      rfl
  | executeSpecificSol =>
      obtain ⟨_, _, _, _, _, -, -, -, -, -, -, -, -, -, rfl⟩ := executeSpecificSol_ok h
      rfl
  | executeSolShares =>
      obtain ⟨_, _, -, -, -, hturns⟩ := executeSolShares_ok h
      refine hturns.preserves (P := fun t => t.tokenAccounts = s.tokenAccounts)
        (fun t entry t' ht hturn => ?_) rfl
      obtain ⟨_, _, -, -, hturn⟩ := paySolShare_ok hturn
      rcases hturn with ⟨-, rfl⟩ | ⟨-, -, -, _, _, rfl⟩
      · exact ht
      · exact ht
  | _ => cases hi

/-- A run that leads on, without a finalize. -/
structure Onward (c : Cluster) (o payer : Pubkey) (s s' : World) : Prop where
  advances : Advances c o payer s s'
  ready : Ready c o s'
  proceeds : (s.estate c o).Proceeds (s'.estate c o)
  dists : ∀ m, (s.tokenDists (.tokenDist (.vault o) m)).isSome = true →
    (s'.tokenDists (.tokenDist (.vault o) m)).isSome = true

namespace Onward

theorem refl (h : Ready c o s) : Onward c o payer s s :=
  ⟨.refl s, h, .refl _, fun _ h => h⟩

theorem trans (h : Onward c o payer s s') (h' : Onward c o payer s' s'') :
    Onward c o payer s s'' :=
  ⟨h.advances.trans h'.advances, h'.ready, h.proceeds.trans h'.proceeds,
    fun m hm => h'.dists m (h.dists m hm)⟩

/-- The log stays, once the execution has begun. -/
theorem log (h : Onward c o payer s s')
    (hl : (s.executionLogs (.execution (.vault o))).isSome = true) :
    (s'.executionLogs (.execution (.vault o))).isSome = true := by
  obtain ⟨l, hl⟩ := Option.isSome_iff_exists.mp hl
  obtain ⟨l', hl', -⟩ := h.proceeds.log l hl
  exact Option.isSome_iff_exists.mpr ⟨l', hl'⟩

end Onward

theorem Ready.onward (h : Ready c o s) {i : Instruction} (hi : i.distributes = true)
    (hsigner : i.signer = payer) (ho : i.vaultKey = .vault o) (hexec : exec c i s = .ok s') :
    Onward c o payer s s' := by
  have hsound := h.reachable.sound
  obtain ⟨acts, hacts, hunfolds⟩ := exec_performs hsound.regular ho hexec
  have hdeeds : ∀ a ∈ acts, a.deed.distributes = true := fun a ha =>
    hunfolds.distributes hi a.deed (List.mem_map_of_mem ha)
  have hrun : Trace (Estate.Step c o) (s.estate c o) acts (s'.estate c o) := hacts.run
  obtain ⟨hopen, hproceeds, hdists⟩ := h.unobstructed.run hrun hdeeds
  have haccounts := exec_tokenAccounts hsound.regular hi hexec
  have hmints : s'.mints = s.mints := (exec_confined hsound.regular hexec).mints
  have hassign : (s'.estate c o).assignments = (s.estate c o).assignments :=
    hproceeds.assignments_eq
  refine ⟨.single (Instruction.distributes_executing hi) hsigner ho hexec,
    ⟨h.reachable.step (.executed hexec), hopen, ?_⟩, hproceeds, hdists⟩
  obtain ⟨v, -, hv, -⟩ := h.unobstructed.due
  obtain ⟨v', hv', heq, -⟩ := hproceeds.config v hv
  refine ⟨?_, ?_, fun w hw => ?_⟩
  · rw [hassign, hmints]
    exact h.served.mint
  · rw [hassign, haccounts]
    exact h.served.vaultAta
  · obtain rfl : v' = w := Option.some.inj (hv'.symm.trans hw)
    have hbenefs : v'.beneficiaries = v.beneficiaries := by rw [heq]
    rw [hassign, haccounts, hbenefs]
    exact h.served.account v hv

/-! ## The steps of an execution -/

namespace Ready

theorem planLoads (h : Ready c o s) {v : VaultConfig}
    (hv : s.vaultConfigs (.vault o) = some v) : PlanLoads s.fresh (.vault o) v := by
  intro hhas
  have hlaw := h.unobstructed.lawful
  obtain ⟨p, hp⟩ := Option.isSome_iff_exists.mp (hlaw.planned.mpr ⟨v, hv, hhas⟩)
  exact ⟨p, hp, (hlaw.plan p hp).1⟩

theorem seeds (h : Ready c o s) {v : VaultConfig} (hv : s.vaultConfigs (.vault o) = some v) :
    Pubkey.vault o = .vault v.owner := by
  rw [(h.unobstructed.lawful.accepted v hv).2]

/-- The plan behind an assignment. -/
theorem plan_of_mem (h : Ready c o s) {a : AssetAssignment}
    (ha : a ∈ (s.estate c o).assignments) {v : VaultConfig}
    (hv : s.vaultConfigs (.vault o) = some v) :
    ∃ p, s.assetPlans (.assetPlan (.vault o)) = some p ∧ p.vault = .vault o ∧
      p.assignments.length ≤ 64 ∧ s.fresh.registeredPlan (.vault o) v = some p ∧
      (s.estate c o).assignments = p.assignments ∧ (s.estate c o).planBits = p.paidMask := by
  have hlaw := h.unobstructed.lawful
  cases hp : (s.estate c o).plan with
  | none => simp [Estate.assignments, hp] at ha
  | some p =>
      obtain ⟨v', hv', hhas⟩ := hlaw.planned.mp (by rw [hp]; rfl)
      obtain rfl := Option.some.inj (hv.symm.trans hv')
      refine ⟨p, hp, (hlaw.plan p hp).1, (hlaw.plan p hp).2, ?_, ?_, ?_⟩
      · rw [World.registeredPlan, if_pos hhas]
        exact hp
      · rw [Estate.assignments, hp, Option.elim_some]
      · rw [Estate.planBits, hp, Option.elim_some]

theorem begin (h : Ready c o s) (hsign : payer.canSign = true) {k : Nat}
    (hfunds : max (c.minimumBalance ExecutionLog.space) 1 + k ≤ s.lamports payer) :
    ∃ s', Onward c o payer s s' ∧ (s'.executionLogs (.execution (.vault o))).isSome = true ∧
      k ≤ s'.lamports payer := by
  cases hl : s.executionLogs (.execution (.vault o)) with
  | some l => exact ⟨s, .refl h, by rw [hl]; rfl, by omega⟩
  | none =>
      have hlaw := h.unobstructed.lawful
      obtain ⟨v, hb, hv, hh, hdl⟩ := h.unobstructed.due
      obtain ⟨hpin, hmin, -⟩ := hlaw.record hb hh
      obtain ⟨s', hexec, hpaid⟩ := beginExecution_progress h.reachable.sound.regular.fresh hsign hv
        hh hpin (h.seeds hv) (h.unobstructed.unexecuted v hv) hl (h.planLoads hv)
        (hlaw.accepted v hv).1 hmin hdl ((Nat.le_add_right _ k).trans hfunds)
      have hpaid : s.lamports payer ≤ s'.lamports payer + max (c.minimumBalance _) 1 := hpaid
      refine ⟨s', h.onward (i := .beginExecution _) rfl rfl rfl hexec, ?_, by omega⟩
      obtain ⟨_, _, _, -, -, -, -, -, -, -, -, -, -, rfl⟩ := beginExecution_ok hexec
      rw [putExecutionLog_executionLogs, Function.update_self]
      rfl

/-- The distribution of a bequeathed mint is opened, whatever the vault holds of it. -/
theorem openDist (h : Ready c o s) (hsign : payer.canSign = true)
    (hl : (s.executionLogs (.execution (.vault o))).isSome = true) {a : AssetAssignment}
    (ha : a ∈ (s.estate c o).assignments) (hdefault : a.mint ≠ .default) {k : Nat}
    (hfunds : max (c.minimumBalance TokenDist.space) 1 + k ≤ s.lamports payer) :
    ∃ s', Onward c o payer s s' ∧
      (s'.tokenDists (.tokenDist (.vault o) a.mint)).isSome = true ∧ k ≤ s'.lamports payer := by
  cases hd : s.tokenDists (.tokenDist (.vault o) a.mint) with
  | some d => exact ⟨s, .refl h, by rw [hd]; rfl, by omega⟩
  | none =>
      obtain ⟨l, hl⟩ := Option.isSome_iff_exists.mp hl
      obtain ⟨v, -, hv, -⟩ := h.unobstructed.due
      obtain ⟨p, -, -, -, hreg, hassign, -⟩ := h.plan_of_mem ha hv
      obtain ⟨s', hexec, hpaid⟩ := beginTokenDist_progress h.reachable.sound.regular.fresh hsign
        ⟨hv, hl, h.seeds hv⟩ (h.unobstructed.lawful.logged l hl).1 (h.planLoads hv)
        (h.served.mint a ha hdefault) hd (.inr ⟨p, hreg, a, hassign ▸ ha, rfl⟩)
        ((Nat.le_add_right _ k).trans hfunds)
      have hpaid : s.lamports payer ≤ s'.lamports payer + max (c.minimumBalance _) 1 := hpaid
      refine ⟨s', h.onward (i := .beginTokenDist _) rfl rfl rfl hexec, ?_, by omega⟩
      obtain ⟨_, _, _, -, -, -, -, -, -, rfl⟩ :=
        beginTokenDist_ok h.reachable.sound.regular.fresh.vacant hexec
      rw [putVaultConfig_tokenDists, putTokenDist_tokenDists, distCall, Function.update_self]
      rfl

/-- So are those of all of them, at most one for each assignment. -/
theorem openDists (h : Ready c o s) (hsign : payer.canSign = true)
    (hl : (s.executionLogs (.execution (.vault o))).isSome = true) (as : List AssetAssignment)
    (has : ∀ a ∈ as, a ∈ (s.estate c o).assignments)
    (hfunds : as.length * max (c.minimumBalance TokenDist.space) 1 ≤ s.lamports payer) :
    ∃ s', Onward c o payer s s' ∧ ∀ a ∈ as, a.mint ≠ .default →
      (s'.tokenDists (.tokenDist (.vault o) a.mint)).isSome = true := by
  induction as generalizing s with
  | nil => exact ⟨s, .refl h, nofun⟩
  | cons a rest ih =>
      rw [List.length_cons, Nat.succ_mul, Nat.add_comm] at hfunds
      obtain ⟨s₁, hon, hopen, hleft⟩ : ∃ s₁, Onward c o payer s s₁ ∧ (a.mint ≠ .default →
          (s₁.tokenDists (.tokenDist (.vault o) a.mint)).isSome = true) ∧
          rest.length * max (c.minimumBalance TokenDist.space) 1 ≤ s₁.lamports payer := by
        by_cases hdefault : a.mint = .default
        · exact ⟨s, .refl h, fun hne => absurd hdefault hne, by omega⟩
        · obtain ⟨s₁, hon, hopen, hleft⟩ :=
            h.openDist hsign hl (has a List.mem_cons_self) hdefault hfunds
          exact ⟨s₁, hon, fun _ => hopen, hleft⟩
      have hassign := hon.proceeds.assignments_eq
      obtain ⟨s₂, hon', hrest⟩ := ih hon.ready (hon.log hl)
        (fun b hb => hassign ▸ has b (List.mem_cons_of_mem a hb)) hleft
      refine ⟨s₂, hon.trans hon', fun b hb hdefault => ?_⟩
      rcases List.mem_cons.mp hb with rfl | hb
      · exact hon'.dists _ (hopen hdefault)
      · exact hrest b hb hdefault

theorem planBits_of_plan {q : AssetPlan}
    (h : s.assetPlans (.assetPlan (.vault o)) = some q) : (s.estate c o).planBits = q.paidMask := by
  simp [Estate.planBits, World.estate, h]

theorem shareBits_of_log {l : ExecutionLog}
    (h : s.executionLogs (.execution (.vault o)) = some l) :
    (s.estate c o).shareBits = l.solPaidMask := by
  simp [Estate.shareBits, World.estate, h]

/-- The next bequest of its mint is paid. -/
theorem bequest (h : Ready c o s) (hsign : payer.canSign = true)
    (hl : (s.executionLogs (.execution (.vault o))).isSome = true)
    (hopen : ∀ a ∈ (s.estate c o).assignments, a.mint ≠ .default →
      (s.tokenDists (.tokenDist (.vault o) a.mint)).isSome = true)
    {j : Nat} {a : AssetAssignment} (ha : (s.estate c o).assignments[j]? = some a)
    (hlower : ∀ k < j, Bitmask.test (s.estate c o).planBits k = true) :
    ∃ s', Onward c o payer s s' ∧ Bitmask.test (s'.estate c o).planBits j = true := by
  cases hclear : Bitmask.test (s.estate c o).planBits j with
  | true => exact ⟨s, .refl h, hclear⟩
  | false =>
      have hlaw := h.unobstructed.lawful
      have hmem : a ∈ (s.estate c o).assignments := List.mem_of_getElem? ha
      obtain ⟨l, hl⟩ := Option.isSome_iff_exists.mp hl
      obtain ⟨v, -, hv, -⟩ := h.unobstructed.due
      obtain ⟨p, hp, hpinned, hlen, -, hassign, hbits⟩ := h.plan_of_mem hmem hv
      obtain ⟨b, hb⟩ : ∃ b, v.beneficiaries[a.beneficiaryIndex]? = some b :=
        ⟨_, List.getElem?_eq_getElem (hlaw.indices v p hv hp a (hassign ▸ hmem))⟩
      have hself : b.wallet ≠ .vault o := fun hself =>
        h.unobstructed.clear (.bequest hv ha hb hself hclear)
      rw [hassign] at ha
      rw [hbits] at hlower hclear
      have hj : j < 64 := ((List.getElem?_eq_some_iff.mp ha).1).trans_le hlen
      have horder : ∀ m, p.paidMask &&& lowerIndexSameMintMask p m j =
          lowerIndexSameMintMask p m j := by
        intro m
        refine Bitmask.and_eq_right_iff.mpr fun k hk => hlower k ?_
        rw [test_lowerIndexSameMintMask p m hj.le, decide_eq_true_eq] at hk
        exact hk.1
      have hs := h.reachable.sound.regular.fresh
      have hgate : Executing s.fresh (.vault o) v l := ⟨hv, hl, h.seeds hv⟩
      have hpin := (hlaw.logged l hl).1
      by_cases hm : a.mint = .default
      · obtain ⟨s', hexec⟩ := executeSpecificSol_progress hs hsign hgate hpin hp hpinned ha hm hb
          hself (horder _) hclear
        refine ⟨s', h.onward (i := .executeSpecificSol _ j) rfl rfl rfl hexec, ?_⟩
        obtain ⟨_, _, q, _, _, -, -, -, -, -, -, -, -, -, rfl⟩ := executeSpecificSol_ok hexec
        rw [planBits_of_plan (q := { q with paidMask := Bitmask.mark q.paidMask j })
          (Function.update_self ..)]
        exact Bitmask.test_mark_self hj _
      · obtain ⟨d, hd⟩ := Option.isSome_iff_exists.mp (hopen a hmem hm)
        obtain ⟨dest, hdest⟩ := h.served.account v hv a hmem hm b hb
        obtain ⟨s', hexec⟩ := executeSpecificAsset_progress hs hsign hgate hpin hp hpinned hd
          (hlaw.dist _ d hd).1 (h.served.mint a hmem hm) ha hm hb hself
          (h.served.vaultAta a hmem hm) hdest (horder _) hclear
        refine ⟨s', h.onward (i := .executeSpecificAsset _ j) rfl rfl rfl hexec, ?_⟩
        obtain ⟨_, _, q, _, _, _, _, -, -, -, -, -, -, -, -, -, -, -, -, -, -, rfl⟩ :=
          executeSpecificAsset_ok hexec
        rw [planBits_of_plan (q := { q with paidMask := Bitmask.mark q.paidMask j })
          (Function.update_self ..)]
        exact Bitmask.test_mark_self hj _

/-- The bequests below `n` are paid, from the first on. -/
theorem bequests (h : Ready c o s) (hsign : payer.canSign = true)
    (hl : (s.executionLogs (.execution (.vault o))).isSome = true)
    (hopen : ∀ a ∈ (s.estate c o).assignments, a.mint ≠ .default →
      (s.tokenDists (.tokenDist (.vault o) a.mint)).isSome = true) (n : Nat)
    (hn : n ≤ (s.estate c o).assignments.length) :
    ∃ s', Onward c o payer s s' ∧
      ∀ k < n, Bitmask.test (s'.estate c o).planBits k = true := by
  induction n with
  | zero => exact ⟨s, .refl h, nofun⟩
  | succ n ih =>
      obtain ⟨s₁, hon, hpaid⟩ := ih (Nat.le_of_succ_le hn)
      have hassign := hon.proceeds.assignments_eq
      obtain ⟨s₂, hon', hbit⟩ := hon.ready.bequest hsign (hon.log hl)
        (fun a ha hm => hon.dists _ (hopen a (hassign ▸ ha) hm))
        (by rw [hassign]; exact List.getElem?_eq_getElem hn) hpaid
      refine ⟨s₂, hon.trans hon', fun k hk => ?_⟩
      rcases Nat.lt_succ_iff_lt_or_eq.mp hk with hk | rfl
      · exact hon'.proceeds.planBits k (hpaid k hk)
      · exact hbit

theorem solShare (h : Ready c o s) (hsign : payer.canSign = true)
    (hl : (s.executionLogs (.execution (.vault o))).isSome = true) {v : VaultConfig}
    (hv : s.vaultConfigs (.vault o) = some v) {i : Nat} {b : Beneficiary}
    (hb : v.beneficiaries[i]? = some b) :
    ∃ s', Onward c o payer s s' ∧ Bitmask.test (s'.estate c o).shareBits i = true := by
  cases hclear : Bitmask.test (s.estate c o).shareBits i with
  | true => exact ⟨s, .refl h, hclear⟩
  | false =>
      have hlaw := h.unobstructed.lawful
      obtain ⟨l, hl⟩ := Option.isSome_iff_exists.mp hl
      obtain ⟨hpin, hsnap⟩ := hlaw.logged l hl
      have hbps : b.shareBps ≤ 10000 :=
        shareBps_le (hlaw.accepted v hv).1.shares (List.mem_of_getElem? hb)
      have hself : 0 < shareAmount l.solSnapshot b.shareBps → b.wallet ≠ .vault o := by
        intro hpos hself
        refine h.unobstructed.clear (.share hv hb hself hclear ?_)
        have hshareable : (s.estate c o).shareable c v = l.solSnapshot := by
          simp [Estate.shareable, World.estate, hl]
        rwa [hshareable, ← shareAmount_eq hsnap hbps]
      rw [shareBits_of_log hl] at hclear
      have hcovered := (h.reachable.solvent o).share_le hlaw hv hl hb hclear
      obtain ⟨s', hexec⟩ := executeSolShares_progress h.reachable.sound.regular.fresh hsign
        ⟨hv, hl, h.seeds hv⟩ (h.unobstructed.unexecuted v hv) hpin hb hclear hself
        ((Nat.le_add_left _ _).trans hcovered)
      refine ⟨s', h.onward (i := .executeSolShares _ [i]) rfl rfl rfl hexec, ?_⟩
      have hi : i < 32 := ((List.getElem?_eq_some_iff.mp hb).1).trans_le
        ((hlaw.accepted v hv).1.count.2.trans (by decide))
      obtain ⟨_, _, -, -, -, hturns⟩ := executeSolShares_ok hexec
      obtain ⟨_, hturn, hend⟩ := Trace.cons_iff.mp hturns
      obtain rfl := Trace.nil_iff.mp hend
      obtain ⟨_, l', -, hl', hturn⟩ := paySolShare_ok hturn
      rcases hturn with ⟨hset, rfl⟩ | ⟨-, -, -, total, count, rfl⟩
      · rw [shareBits_of_log hl']
        exact hset
      · rw [shareBits_of_log (l := { l' with
          totalSolDistributed := total
          transferCount := count
          solPaidMask := Bitmask.mark l'.solPaidMask i }) (Function.update_self ..)]
        exact Bitmask.test_mark_self hi _

/-- The shares below `n` are paid. -/
theorem solShares (h : Ready c o s) (hsign : payer.canSign = true)
    (hl : (s.executionLogs (.execution (.vault o))).isSome = true) {v : VaultConfig}
    (hv : s.vaultConfigs (.vault o) = some v) (n : Nat) (hn : n ≤ v.beneficiaries.length) :
    ∃ s', Onward c o payer s s' ∧
      ∀ i < n, Bitmask.test (s'.estate c o).shareBits i = true := by
  induction n with
  | zero => exact ⟨s, .refl h, nofun⟩
  | succ n ih =>
      obtain ⟨s₁, hon, hpaid⟩ := ih (Nat.le_of_succ_le hn)
      obtain ⟨v₁, hv₁, heq, -⟩ := hon.proceeds.config v hv
      have hb : v₁.beneficiaries[n]? = some v.beneficiaries[n] := by
        rw [heq]
        exact List.getElem?_eq_getElem hn
      obtain ⟨s₂, hon', hbit⟩ := hon.ready.solShare hsign (hon.log hl) hv₁ hb
      refine ⟨s₂, hon.trans hon', fun i hi => ?_⟩
      rcases Nat.lt_succ_iff_lt_or_eq.mp hi with hi | rfl
      · obtain ⟨l, hl⟩ := Option.isSome_iff_exists.mp (hon.log hl)
        obtain ⟨l', hl', -, -, -, hmono⟩ := hon'.proceeds.log l hl
        have hset := hpaid i hi
        rw [shareBits_of_log hl] at hset
        rw [shareBits_of_log hl']
        exact hmono i hset
      · exact hbit

/-- Once every bit is set, the execution is finalized. -/
theorem finalize (h : Ready c o s) (hsign : payer.canSign = true)
    (hl : (s.executionLogs (.execution (.vault o))).isSome = true)
    (hbequests : ∀ k < (s.estate c o).assignments.length,
      Bitmask.test (s.estate c o).planBits k = true)
    (hshares : ∀ v, s.vaultConfigs (.vault o) = some v → ∀ i < v.beneficiaries.length,
      Bitmask.test (s.estate c o).shareBits i = true) :
    ∃ s' v', Advances c o payer s s' ∧ s'.vaultConfigs (.vault o) = some v' ∧
      v'.executed = true := by
  have hlaw := h.unobstructed.lawful
  obtain ⟨l, hl⟩ := Option.isSome_iff_exists.mp hl
  obtain ⟨v, -, hv, -⟩ := h.unobstructed.due
  have hshares : l.solPaidMask = fullMaskU32 v.beneficiaries.length := by
    have hcount := (hlaw.accepted v hv).1.count.2.trans (show maxBeneficiaries ≤ 32 by decide)
    refine (Bitmask.eq_full_iff hcount (hlaw.solMask v l hv hl)).mpr fun i hi => ?_
    rw [← shareBits_of_log (c := c) hl]
    exact hshares v hv i hi
  have hpaid : ∀ p, s.fresh.registeredPlan (.vault o) v = some p →
      p.paidMask = fullMaskU64 p.assignments.length := by
    intro p hreg
    have hp : s.assetPlans (.assetPlan (.vault o)) = some p := by
      unfold World.registeredPlan at hreg
      split at hreg
      · exact hreg
      · cases hreg
    refine (Bitmask.eq_full_iff (hlaw.plan p hp).2 (hlaw.planMask p hp).1).mpr fun k hk => ?_
    rw [← planBits_of_plan (c := c) hp]
    refine hbequests k (hk.trans_eq ?_)
    simp [Estate.assignments, World.estate, hp]
  obtain ⟨s', hexec⟩ := finalizeExecution_progress h.reachable.sound.regular.fresh hsign
    ⟨hv, hl, h.seeds hv⟩ (h.unobstructed.unexecuted v hv) (hlaw.logged l hl).1 (h.planLoads hv)
    hshares hpaid
  obtain ⟨w, _, -, -, -, -, -, heq⟩ := finalizeExecution_ok hexec
  refine ⟨s', { w with executed := true, active := false },
    .single (i := .finalizeExecution _) rfl rfl rfl hexec, ?_, rfl⟩
  rw [heq]
  exact Function.update_self ..

/-- What is ready can be completed. -/
theorem completes (h : Ready c o s) (hsign : payer.canSign = true)
    (hfunds : max (c.minimumBalance ExecutionLog.space) 1 + (s.estate c o).assignments.length *
      max (c.minimumBalance TokenDist.space) 1 ≤ s.lamports payer) :
    ∃ s' v', Advances c o payer s s' ∧ s'.vaultConfigs (.vault o) = some v' ∧
      v'.executed = true := by
  obtain ⟨s₁, hon₁, hl, hleft⟩ := h.begin hsign hfunds
  have hassign₁ := hon₁.proceeds.assignments_eq
  obtain ⟨s₂, hon₂, hopen⟩ := hon₁.ready.openDists hsign hl (s.estate c o).assignments
    (fun a ha => hassign₁ ▸ ha) hleft
  have hon := hon₁.trans hon₂
  have hassign₂ := hon.proceeds.assignments_eq
  have hl₂ := hon₂.log hl
  obtain ⟨s₃, hon₃, hbequests⟩ := hon.ready.bequests hsign hl₂ (fun a ha => hopen a (hassign₂ ▸ ha))
    _ le_rfl
  obtain ⟨v, -, hv, -⟩ := hon₃.ready.unobstructed.due
  obtain ⟨s₄, hon₄, hshares⟩ := hon₃.ready.solShares hsign (hon₃.log hl₂) hv _ le_rfl
  have hassign₄ := hon₄.proceeds.assignments_eq.trans hon₃.proceeds.assignments_eq
  obtain ⟨v₄, hv₄, heq, -⟩ := hon₄.proceeds.config v hv
  obtain ⟨s₅, v₅, hadv, hv₅, hdone⟩ := hon₄.ready.finalize hsign (hon₄.log (hon₃.log hl₂))
    (fun k hk => hon₄.proceeds.planBits k (hbequests k (hk.trans_eq (by rw [hassign₄]))))
    (fun w hw i hi => by
      obtain rfl := Option.some.inj (hv₄.symm.trans hw)
      refine hshares i (hi.trans_eq ?_)
      rw [heq])
  exact ⟨s₅, v₅, (hon.trans (hon₃.trans hon₄)).advances.trans hadv, hv₅, hdone⟩

end Ready

/-! ## Completability -/

/-- The bequeathed mints load, and a beneficiary without a token account for one of them can be
    given the associated one. -/
structure Servable (c : Cluster) (o : Pubkey) (s : World) (v : VaultConfig) : Prop where
  mint : ∀ a ∈ (s.estate c o).assignments, a.mint ≠ .default → (s.mints a.mint).isSome = true
  account : ∀ a ∈ (s.estate c o).assignments, a.mint ≠ .default → ∀ b,
    v.beneficiaries[a.beneficiaryIndex]? = some b →
      s.tokenAccounts (canonicalAta c b.wallet a.mint) = none ∨
        ∃ dest, s.tokenAccounts dest = some ⟨some (c.tokenProgram a.mint), a.mint, b.wallet⟩

/-- The associated token accounts of the vault and of the beneficiary, for each bequest. -/
def bequestAccounts (o : Pubkey) (v : VaultConfig) (assignments : List AssetAssignment) :
    List (Pubkey × Pubkey) :=
  (assignments.filter (·.mint ≠ .default)).flatMap fun a => (.vault o, a.mint) ::
    ((v.beneficiaries[a.beneficiaryIndex]?).map fun b => (b.wallet, a.mint)).toList

theorem estate_createAtas (accounts : List (Pubkey × Pubkey)) :
    (s.createAtas c accounts).estate c o = s.estate c o := by
  obtain ⟨t, ht⟩ := createAtas_eq (c := c) s accounts
  rw [ht]
  rfl

theorem Servable.served {v : VaultConfig} (hs : s.Regular c)
    (hv : s.vaultConfigs (.vault o) = some v) (h : Servable c o s v) :
    Served c o (s.createAtas c (bequestAccounts o v (s.estate c o).assignments)) := by
  have hmem : ∀ a ∈ (s.estate c o).assignments, a.mint ≠ .default → ∀ account,
      (account = (.vault o, a.mint) ∨
        ∃ b, v.beneficiaries[a.beneficiaryIndex]? = some b ∧ account = (b.wallet, a.mint)) →
      account ∈ bequestAccounts o v (s.estate c o).assignments := by
    intro a ha hm account haccount
    refine List.mem_flatMap.mpr ⟨a, List.mem_filter.mpr ⟨ha, by simpa using hm⟩, ?_⟩
    rcases haccount with rfl | ⟨b, hb, rfl⟩
    · exact List.mem_cons_self
    · exact List.mem_cons_of_mem _ (by simp [hb])
  obtain ⟨t, ht⟩ := createAtas_eq (c := c) s (bequestAccounts o v (s.estate c o).assignments)
  refine ⟨?_, fun a ha hm => ?_, fun w hw a ha hm b hb => ?_⟩
  · rw [estate_createAtas, ht]
    exact h.mint
  · rw [estate_createAtas] at ha
    cases hk : s.tokenAccounts (canonicalAta c (.vault o) a.mint) with
    | none => exact createAtas_created (hmem a ha hm _ (.inl rfl)) hk
    | some account =>
        have heq := hs.vaultAtas o a.mint _ account hk
        exact createAtas_kept (hk.trans (congrArg some heq))
  · rw [estate_createAtas] at ha
    have hw : s.vaultConfigs (.vault o) = some w := by rwa [ht] at hw
    obtain rfl := Option.some.inj (hv.symm.trans hw)
    rcases h.account a ha hm b hb with hk | ⟨dest, hdest⟩
    · exact ⟨_, createAtas_created (hmem a ha hm _ (.inr ⟨b, hb, rfl⟩)) hk⟩
    · exact ⟨dest, createAtas_kept hdest⟩

/-- An obstructed vault is executed in no run. -/
theorem obstructed_locked {v : VaultConfig} {es : List Event} (hreach : Reachable c s)
    (hv : s.vaultConfigs (.vault o) = some v) (hexec : v.executed = false)
    (hdue : (s.estate c o).Due) (hob : (s.estate c o).Obstructed c o)
    (hrun : Trace (Step c) s es s') :
    ∀ v', s'.vaultConfigs (.vault o) = some v' → v'.executed = false := by
  obtain ⟨actss, -, hacts⟩ := run_refines hreach.sound hrun o
  refine hob.never (hreach.lawful o) hdue (fun w hw => ?_) hacts
  obtain rfl := Option.some.inj (hv.symm.trans hw)
  exact hexec

/-- Nothing is owed to the vault itself where it is no beneficiary of its own. -/
theorem not_obstructed {v : VaultConfig} (hv : s.vaultConfigs (.vault o) = some v)
    (hother : ∀ b ∈ v.beneficiaries, b.wallet ≠ .vault o) :
    ¬ (s.estate c o).Obstructed c o := by
  intro hob
  cases hob with
  | share hw hb hself =>
      obtain rfl := Option.some.inj (hv.symm.trans hw)
      exact hother _ (List.mem_of_getElem? hb) hself
  | bequest hw _ hb hself =>
      obtain rfl := Option.some.inj (hv.symm.trans hw)
      exact hother _ (List.mem_of_getElem? hb) hself

/-- **Completability.** A payer who can pay the rent takes a due vault to the end of its execution,
    once the missing token accounts have been created, exactly when nothing unpaid is owed to the
    vault itself. -/
theorem completable_iff {v : VaultConfig} {h : HeartbeatRecord} (hreach : Reachable c s)
    (hv : s.vaultConfigs (.vault o) = some v)
    (hh : s.heartbeatRecords (.heartbeat (.vault o)) = some h)
    (hdue : h.lastHeartbeat + v.heartbeatInterval + v.gracePeriod ≤ s.now)
    (hserv : Servable c o s v) (hsign : payer.canSign = true)
    (hfunds : max (c.minimumBalance ExecutionLog.space) 1 + (s.estate c o).assignments.length *
      max (c.minimumBalance TokenDist.space) 1 ≤ s.lamports payer) :
    (∃ accounts s' v', Advances c o payer (s.createAtas c accounts) s' ∧
      s'.vaultConfigs (.vault o) = some v' ∧ v'.executed = true) ↔
    v.executed = true ∨ ¬ (s.estate c o).Obstructed c o := by
  have hdue : (s.estate c o).Due := ⟨v, h, hv, hh, hdue⟩
  constructor
  · rintro ⟨accounts, s', v', ⟨es, hrun, -⟩, hv', hdone⟩
    cases hexec : v.executed with
    | true => exact .inl rfl
    | false =>
        refine .inr fun hob => ?_
        obtain ⟨t, ht⟩ := createAtas_eq (c := c) s accounts
        have hnot := obstructed_locked (createAtas_reachable hreach accounts)
          (by rw [ht]; exact hv) hexec (by rw [estate_createAtas]; exact hdue)
          (by rw [estate_createAtas]; exact hob) hrun v' hv'
        exact absurd (hnot.symm.trans hdone) Bool.false_ne_true
  · rintro hcase
    cases hexec : v.executed with
    | true => exact ⟨[], s, v, .refl s, hv, hexec⟩
    | false =>
        have hclear := hcase.resolve_left (by simp [hexec])
        have hready : Ready c o
            (s.createAtas c (bequestAccounts o v (s.estate c o).assignments)) := by
          refine ⟨createAtas_reachable hreach _, ?_, hserv.served hreach.sound.regular hv⟩
          rw [estate_createAtas]
          refine ⟨hreach.lawful o, hdue, fun w hw => ?_, hclear⟩
          obtain rfl := Option.some.inj (hv.symm.trans hw)
          exact hexec
        refine ⟨_, hready.completes hsign ?_⟩
        obtain ⟨t, ht⟩ := createAtas_eq (c := c) s (bequestAccounts o v (s.estate c o).assignments)
        rw [estate_createAtas, ht]
        exact hfunds

/-- The sample vault can be executed at its deadline. -/
theorem completable_iff_sample :
    ∃ accounts s' v', Advances Sample.cluster Sample.owner Sample.keeper
      (Sample.due.createAtas Sample.cluster accounts) s' ∧
      s'.vaultConfigs Sample.vault = some v' ∧ v'.executed = true := by
  obtain ⟨hnow, hmint, halice, hrent⟩ : Sample.due.now = 691_200 ∧
      (Sample.due.mints Sample.gold).isSome = true ∧
      Sample.due.tokenAccounts (Sample.ata Sample.alice) =
        some ⟨some .token, Sample.gold, Sample.alice⟩ ∧
      max (Sample.cluster.minimumBalance ExecutionLog.space) 1 + Sample.assignments.length *
        max (Sample.cluster.minimumBalance TokenDist.space) 1 ≤
          Sample.due.lamports Sample.keeper := by
    decide +kernel
  have hassign : (Sample.due.estate Sample.cluster Sample.owner).assignments = Sample.assignments :=
    Sample.due_plan.symm
  have hserv : Servable Sample.cluster Sample.owner Sample.due Sample.config := by
    refine ⟨fun a ha hm => ?_, fun a ha hm b hb => .inr ⟨Sample.ata Sample.alice, ?_⟩⟩ <;>
      rw [hassign] at ha <;>
      obtain rfl | rfl : a = ⟨.default, 500, 1, false⟩ ∨ a = ⟨Sample.gold, 30, 0, false⟩ := by
        simpa [Sample.assignments] using ha
    · exact absurd rfl hm
    · exact hmint
    · exact absurd rfl hm
    · obtain rfl : ⟨Sample.alice, 6_000⟩ = b := Option.some.inj hb
      exact halice
  refine (completable_iff Sample.due_reachable Sample.due_config Sample.due_heartbeat
    (by rw [hnow]; decide) hserv rfl (by rw [hassign]; exact hrent)).mpr (.inr ?_)
  exact not_obstructed Sample.due_config (by decide)

namespace Sample

/-- The owner leaves two fifths to the vault itself. -/
def selfOwedConfig : VaultConfig :=
  { config with beneficiaries := [⟨alice, 6_000⟩, ⟨vault, 4_000⟩], hasAssetPlan := false }

def selfOwedSetup : List Cue := [.run (initializeVault selfOwedConfig.beneficiaries), .wait 691_200]

/-- That vault at its deadline. -/
def selfOwed : World := genesis.world.play cluster selfOwedSetup

theorem selfOwed_evaluates :
    genesis.world.plays cluster noCheck selfOwedSetup = true ∧
    selfOwed.vaultConfigs vault = some selfOwedConfig ∧
    selfOwed.heartbeatRecords (.heartbeat vault) = some heartbeat ∧ selfOwed.now = 691_200 ∧
    Bitmask.test (selfOwed.estate cluster owner).shareBits 1 = false ∧
    0 < (selfOwed.estate cluster owner).shareable cluster selfOwedConfig * 4_000 / 10_000 := by
  decide +kernel

end Sample

/-- That vault is executed in no run. -/
theorem self_owed_locked :
    Reachable Sample.cluster Sample.selfOwed ∧
    (Sample.selfOwed.estate Sample.cluster Sample.owner).Due ∧
    ∀ es s', Trace (Step Sample.cluster) Sample.selfOwed es s' →
      ∀ v, s'.vaultConfigs Sample.vault = some v → v.executed = false := by
  obtain ⟨hplays, hv, hh, hnow, hclear, hpos⟩ := Sample.selfOwed_evaluates
  have hreach := Genesis.reachable Sample.genesis_consistent hplays
  have hdue : (Sample.selfOwed.estate Sample.cluster Sample.owner).Due := by
    refine ⟨_, _, hv, hh, le_trans ?_ hnow.ge⟩
    decide
  refine ⟨hreach, hdue, fun es s' hrun => obstructed_locked hreach hv rfl hdue ?_ hrun⟩
  exact .share (b := ⟨Sample.vault, 4_000⟩) hv rfl rfl hclear hpos

end DeadMansVault
