-- SUMMARY: A pass pays everything that is owed, once its distributions are open and the beneficiaries can be served.
import DeadMansVault.Automation.Batches
import DeadMansVault.Automation.Finalize

/-!
# Fulfilment

Where every beneficiary of a bequest can have the associated account, and nothing is owed to
the vault itself, each payment of a pass goes through, in its turn.
-/

namespace DeadMansVault.Crank

open Script World

variable {c : Cluster} {node : Node} {job : Job World} {o payer : Pubkey} {v : VaultConfig}
  {as : List AssetAssignment} {w w' : World}

/-! ## Service -/

/-- The token accounts that the bequests need are there, or can be created. -/
structure Serves (c : Cluster) (node : Node) (o : Pubkey) (v : VaultConfig)
    (as : List AssetAssignment) (w : World) : Prop where
  mint : ∀ a ∈ as, a.mint ≠ .default → (w.mints a.mint).isSome = true
  /-- No mint is where a token account belongs. -/
  apart : ∀ owner mint program, w.mints (.associatedToken owner mint program) = none
  /-- No pass creates the vault's account of a mint that has its distribution already. -/
  vaultAta : ∀ a ∈ as, a.mint ≠ .default → DistOpen o w a.mint →
    (w.tokenAccounts (canonicalAta c (.vault o) a.mint)).isSome = true
  onCurve : ∀ a ∈ as, a.mint ≠ .default → ∀ b, v.beneficiaries[a.beneficiaryIndex]? = some b →
    node.onCurve b.wallet = true
  account : ∀ a ∈ as, a.mint ≠ .default → ∀ b, v.beneficiaries[a.beneficiaryIndex]? = some b →
    ∀ x, w.tokenAccounts (canonicalAta c b.wallet a.mint) = some x →
      x = ⟨some (c.tokenProgram a.mint), a.mint, b.wallet⟩

namespace Serves

theorem createAta (h : Serves c node o v as w) (account : Pubkey × Pubkey) :
    Serves c node o v as (w.createAta c account) := by
  have hkept : ∀ k x, w.tokenAccounts k = some x →
      (w.createAta c account).tokenAccounts k = some x :=
    fun k x hx => createAta_kept hx
  have hnew : ∀ wallet mint x, (w.createAta c account).tokenAccounts (canonicalAta c wallet mint) =
      some x → w.tokenAccounts (canonicalAta c wallet mint) = some x ∨
        x = ⟨some (c.tokenProgram mint), mint, wallet⟩ := by
    intro wallet mint x hx
    unfold World.createAta at hx
    split at hx
    · exact .inl hx
    · by_cases hkey : canonicalAta c wallet mint = canonicalAta c account.1 account.2
      · have hpair := hkey
        simp only [canonicalAta, Pubkey.associatedToken.injEq] at hpair
        rw [putTokenAccounts_tokenAccounts, hkey, Function.update_self] at hx
        rw [hpair.1, hpair.2.1]
        exact .inr (Option.some.inj hx).symm
      · rw [putTokenAccounts_tokenAccounts, Function.update_of_ne hkey] at hx
        exact .inl hx
  obtain ⟨t, ht⟩ := createAta_eq (c := c) w account
  rw [ht] at hkept hnew ⊢
  refine ⟨h.mint, h.apart, fun a ha hm hopen => ?_, h.onCurve, fun a ha hm b hb x hx => ?_⟩
  · obtain ⟨x, hx⟩ := Option.isSome_iff_exists.mp (h.vaultAta a ha hm hopen)
    exact Option.isSome_iff_exists.mpr ⟨x, hkept _ x hx⟩
  · rcases hnew _ _ x hx with hbefore | hx
    · exact h.account a ha hm b hb x hbefore
    · exact hx

theorem createAtas (h : Serves c node o v as w) (accounts : List (Pubkey × Pubkey)) :
    Serves c node o v as (w.createAtas c accounts) := by
  induction accounts generalizing w with
  | nil => exact h
  | cons account rest ih => exact ih (h.createAta account)

/-- An instruction of a distribution leaves it, unless it opens a mint without the account. -/
theorem executed (h : Serves c node o v as w) (hs : w.Regular c) {i : Instruction}
    (hexec : exec c i w = .ok w') (hi : i.distributes = true)
    (hopens : ∀ m, DistOpen o w' m → DistOpen o w m ∨
      (w.tokenAccounts (canonicalAta c (.vault o) m)).isSome = true) :
    Serves c node o v as w' := by
  have haccounts := exec_tokenAccounts hs hi hexec
  have hmints : w'.mints = w.mints := (exec_confined hs hexec).mints
  refine ⟨hmints ▸ h.mint, hmints ▸ h.apart, fun a ha hm hopen => ?_, h.onCurve, ?_⟩
  · rw [haccounts]
    exact (hopens _ hopen).elim (h.vaultAta a ha hm) fun hthere => hthere
  · rw [haccounts]
    exact h.account

end Serves

/-- `begin_token_dist` opens its own mint only. -/
theorem beginTokenDist_opens_only (hs : w.Regular c) {ctx : BeginTokenDist}
    (hexec : exec c (.beginTokenDist ctx) w = .ok w') {m : Pubkey} (hopen : DistOpen o w' m) :
    DistOpen o w m ∨ m = ctx.mint := by
  obtain ⟨_, _, _, -, -, -, -, -, -, rfl⟩ := beginTokenDist_ok hs.fresh.vacant hexec
  by_cases hm : m = ctx.mint
  · exact .inr hm
  · refine .inl ?_
    unfold DistOpen at hopen ⊢
    rw [putVaultConfig_tokenDists, putTokenDist_tokenDists, Function.update_of_ne] at hopen
    · exact hopen
    · intro heq
      exact hm (Pubkey.tokenDist.inj heq).2

/-- An execution under way that owes the vault itself nothing, and whose bequests can be served. -/
structure Clear (c : Cluster) (node : Node) (o : Pubkey) (v : VaultConfig)
    (as : List AssetAssignment) (w : World) : Prop where
  pending : Pending c o v as w
  clear : ¬ (w.estate c o).Obstructed c o
  serves : Serves c node o v as w

namespace Clear

theorem unobstructed (h : Clear c node o v as w) : (w.estate c o).Unobstructed c o := by
  refine ⟨h.pending.lawful, h.pending.due, fun v' hv' => ?_, h.clear⟩
  obtain ⟨u, hu, hopen, -⟩ := h.pending.config
  obtain rfl := Option.some.inj (hu.symm.trans hv')
  exact hopen

theorem createAtas (h : Clear c node o v as w) (accounts : List (Pubkey × Pubkey)) :
    Clear c node o v as (w.createAtas c accounts) := by
  refine ⟨h.pending.createAtas accounts, ?_, h.serves.createAtas accounts⟩
  rw [estate_createAtas]
  exact h.clear

/-- An instruction of a distribution leaves it so, and takes back no payment. -/
theorem executed (h : Clear c node o v as w) {i : Instruction} (hexec : exec c i w = .ok w')
    (hi : i.distributes = true) (ho : i.vaultKey = .vault o)
    (hopens : ∀ m, DistOpen o w' m → DistOpen o w m ∨
      (w.tokenAccounts (canonicalAta c (.vault o) m)).isSome = true) :
    Clear c node o v as w' ∧
      (∀ j, Bitmask.test (w.estate c o).planBits j = true →
        Bitmask.test (w'.estate c o).planBits j = true) := by
  obtain ⟨hpending, acts, hrun, hdeeds, -⟩ := h.pending.executed hexec hi ho
  obtain ⟨hunobstructed, hproceeds, -⟩ := h.unobstructed.run hrun hdeeds
  exact ⟨⟨hpending, hunobstructed.clear,
    h.serves.executed h.pending.reachable.sound.regular hexec hi hopens⟩, hproceeds.planBits⟩

end Clear

/-- The opening of a distribution, whether it succeeds or not. -/
theorem Job.OnNode.beginTokenDist_serves (hjob : job.OnNode c node) (hvault : job.vault = .vault o)
    (hasPlan : Bool) (entry : Pubkey × ProgramId) :
    Meets (fun r => Clear c node o v as r.net) (job.beginTokenDist hasPlan entry)
      (fun _ r => Clear c node o v as r.net) (fun _ r => Clear c node o v as r.net) := by
  obtain ⟨m, programId⟩ := entry
  let P : World → List Pubkey → Prop := fun w _ => Clear c node o v as w
  change Meets (fun r : Run World => P r.net r.stuckMints) _
    (fun _ r => P r.net r.stuckMints) (fun _ r => P r.net r.stuckMints)
  unfold Job.beginTokenDist
  dsimp only
  refine Meets.bind (Q := fun _ r => P r.net r.stuckMints) ?_ fun td => ?_
  · rw [hjob.client]
    exact fun r hr => hr
  cases td with
  | some td => exact fun _ hr => hr
  | none =>
      refine Meets.tryCatch (E := fun _ r => P r.net r.stuckMints) ?_ fun e => ?_
      · refine Meets.bind (Q := fun ata r => P r.net r.stuckMints ∧
          ata = job.client.ata m job.vault programId) (fun r hr => ⟨hr, rfl⟩) fun ata => ?_
        refine Meets.of_fact ?_
        rintro rfl
        -- Without the canonical account the begin is rejected, and with it there is one now.
        let Q : World → List Pubkey → Prop := fun w _ =>
          Clear c node o v as w ∧ (programId = .token (c.tokenProgram m) →
            (w.tokenAccounts (canonicalAta c (.vault o) m)).isSome = true)
        refine Meets.bind (Q := fun _ r => Q r.net r.stuckMints) ?_ fun _ => ?_
        · intro r hr
          obtain ⟨r₁, accounts, -, hnet, hrun⟩ :=
            hjob.ensureAta (job.client.ata m job.vault programId) m job.vault programId r
          have hP : P r₁.net r₁.stuckMints := by
            rw [hnet]
            exact hr.createAtas accounts
          rcases hrun with hrun | ⟨-, -, submission, hrun⟩
          · rw [hrun]
            refine ⟨hP, ?_⟩
            rintro rfl
            rw [hjob.client, hvault] at hrun
            exact hjob.ensureAta_there (hr.serves.apart ..) hrun
          · rw [hrun]
            exact hP
        · refine (hjob.send_meets (P := Q) (Q := P) fun w w' stuck h hlands => ?_).mono
            (fun _ h => h) (fun _ _ h => h) fun _ _ h => h.1
          have hexec := Submission.exec_of_lands (i := .beginTokenDist _) rfl rfl hlands
          have hs := h.1.pending.reachable.sound.regular
          refine (h.1.executed hexec rfl hvault fun m' hopen => ?_).1
          refine (beginTokenDist_opens_only hs hexec hopen).imp_right fun hm => ?_
          rw [show m' = m from hm]
          have hcanon := (beginTokenDist_needs hexec).1
          rw [hjob.client] at hcanon
          exact h.2 ((@Node.ata_eq_canonical c (m, programId) node job.vault).mp hcanon)
      · split
        · exact fun _ hr => hr
        · split
          · exact fun _ hr => hr
          · exact fun _ hr => hr

/-! ## What can be paid -/

/-- With all distributions of the plan open. -/
structure Payable (c : Cluster) (node : Node) (o : Pubkey) (v : VaultConfig)
    (as : List AssetAssignment) (w : World) : Prop extends Clear c node o v as w where
  opened : ∀ a ∈ as, a.mint ≠ .default → DistOpen o w a.mint

namespace Payable

theorem createAtas (h : Payable c node o v as w) (accounts : List (Pubkey × Pubkey)) :
    Payable c node o v as (w.createAtas c accounts) :=
  ⟨h.toClear.createAtas accounts, fun a ha hm =>
    (opened_createAtas accounts).mpr (h.opened a ha hm)⟩

/-- A payment leaves what can be paid, and takes back none. -/
theorem executed (h : Payable c node o v as w) {i : Instruction} (hexec : exec c i w = .ok w')
    (hi : i.distributes = true) (ho : i.vaultKey = .vault o)
    (hopens : ∀ m, DistOpen o w' m → DistOpen o w m) :
    Payable c node o v as w' ∧
      (∀ j, Bitmask.test (w.estate c o).planBits j = true →
        Bitmask.test (w'.estate c o).planBits j = true) := by
  obtain ⟨hclear, hmono⟩ := h.toClear.executed hexec hi ho fun m hm => .inl (hopens m hm)
  exact ⟨⟨hclear, fun a ha hm => h.pending.keeps_open hexec hi ho (h.opened a ha hm)⟩, hmono⟩

/-- The beneficiary of a bequest, who is not the vault where it is unpaid. -/
theorem beneficiary (h : Payable c node o v as w) {j : Nat} {a : AssetAssignment}
    (ha : as[j]? = some a) : ∃ b, v.beneficiaries[a.beneficiaryIndex]? = some b ∧
      (Bitmask.test (w.estate c o).planBits j = false → b.wallet ≠ .vault o) := by
  obtain ⟨u, hu, -, hbenefs, -⟩ := h.pending.config
  have hassign := h.pending.assignments
  cases hp : w.assetPlans (.assetPlan (.vault o)) with
  | none =>
      simp only [Estate.assignments, World.estate, hp, Option.elim_none] at hassign
      rw [← hassign] at ha
      cases ha
  | some p =>
      obtain ⟨hsame, -⟩ := h.pending.plan_assignments hp
      have hidx := h.pending.lawful.indices u p hu hp a (hsame ▸ List.mem_of_getElem? ha)
      obtain ⟨b, hb⟩ : ∃ b, u.beneficiaries[a.beneficiaryIndex]? = some b :=
        ⟨_, List.getElem?_eq_getElem hidx⟩
      refine ⟨b, hbenefs ▸ hb, fun hclear hself => ?_⟩
      exact h.clear (.bequest hu (hassign.symm ▸ ha) hb hself hclear)

/-- What the program looks at before it pays a bequest. -/
theorem bequest_facts (h : Payable c node o v as w) {j : Nat} {a : AssetAssignment}
    {b : Beneficiary} (ha : as[j]? = some a)
    (hb : v.beneficiaries[a.beneficiaryIndex]? = some b)
    (hlower : ∀ k < j, Bitmask.test (w.estate c o).planBits k = true)
    (hclear : Bitmask.test (w.estate c o).planBits j = false) {v' : VaultConfig}
    (hv' : w.vaultConfigs (.vault o) = some v') :
    ∃ p, w.assetPlans (.assetPlan (.vault o)) = some p ∧ p.vault = .vault o ∧
      as.length ≤ 64 ∧ p.assignments = as ∧ (w.estate c o).planBits = p.paidMask ∧
      v'.beneficiaries[a.beneficiaryIndex]? = some b ∧ b.wallet ≠ .vault o ∧
      ∀ m, p.paidMask &&& lowerIndexSameMintMask p m j = lowerIndexSameMintMask p m j := by
  obtain ⟨u, hu, -, hbenefs, -⟩ := h.pending.config
  obtain rfl := Option.some.inj (hu.symm.trans hv')
  obtain ⟨b', hb', hself⟩ := h.beneficiary ha
  obtain rfl := Option.some.inj (hb.symm.trans hb')
  have hlaw := h.pending.lawful
  cases hp : w.assetPlans (.assetPlan (.vault o)) with
  | none =>
      have hassign := h.pending.assignments
      simp only [Estate.assignments, World.estate, hp, Option.elim_none] at hassign
      rw [← hassign] at ha
      cases ha
  | some p =>
      obtain ⟨hassign, hbits⟩ := h.pending.plan_assignments hp
      have hlen : as.length ≤ 64 := hassign ▸ (hlaw.plan p hp).2
      have hj : j < 64 := ((List.getElem?_eq_some_iff.mp ha).1).trans_le hlen
      refine ⟨p, rfl, (hlaw.plan p hp).1, hlen, hassign, hbits, hbenefs.symm ▸ hb, hself hclear,
        fun m => Bitmask.and_eq_right_iff.mpr fun k hk => ?_⟩
      rw [test_lowerIndexSameMintMask p m hj.le, decide_eq_true_eq] at hk
      rw [← hbits]
      exact hlower k hk.1

/-- The next bequest of SOL. -/
theorem specificSol (h : Payable c node o v as w) (hsign : payer.canSign = true) {j : Nat}
    {a : AssetAssignment} {b : Beneficiary} (ha : as[j]? = some a) (hm : a.mint = .default)
    (hb : v.beneficiaries[a.beneficiaryIndex]? = some b)
    (hlower : ∀ k < j, Bitmask.test (w.estate c o).planBits k = true)
    (hclear : Bitmask.test (w.estate c o).planBits j = false) :
    ∃ w', exec c (.executeSpecificSol ⟨payer, .vault o, .execution (.vault o),
        .assetPlan (.vault o), b.wallet⟩ j) w = .ok w' ∧ Payable c node o v as w' ∧
      (∀ k, Bitmask.test (w.estate c o).planBits k = true →
        Bitmask.test (w'.estate c o).planBits k = true) ∧
      Bitmask.test (w'.estate c o).planBits j = true := by
  obtain ⟨v', l, hgate, hpin, -⟩ := h.pending.executing
  obtain ⟨p, hp, hpinned, hlen, hassign, hbits, hb', hself, horder⟩ :=
    h.bequest_facts ha hb hlower hclear hgate.config
  rw [hbits] at hclear
  obtain ⟨w', hexec⟩ := executeSpecificSol_progress h.pending.reachable.sound.regular.fresh hsign
    ⟨hgate.config, hgate.log, hgate.seeds⟩ hpin hp hpinned (hassign.symm ▸ ha) hm hb' hself
    (horder _) hclear
  obtain ⟨_, _, q, _, _, -, -, -, -, -, -, -, -, -, heq⟩ := executeSpecificSol_ok hexec
  obtain ⟨hnext, hmono⟩ := h.executed (i := .executeSpecificSol _ j) hexec rfl rfl fun m hm => by
    rw [heq] at hm
    exact hm
  refine ⟨w', hexec, hnext, hmono, ?_⟩
  rw [heq, Ready.planBits_of_plan (q := { q with paidMask := Bitmask.mark q.paidMask j })
    (Function.update_self ..)]
  exact Bitmask.test_mark_self (((List.getElem?_eq_some_iff.mp ha).1).trans_le hlen) _

/-- The next bequest of a mint, where the beneficiary has the associated account. -/
theorem specificAsset (h : Payable c node o v as w) (hsign : payer.canSign = true) {j : Nat}
    {a : AssetAssignment} {b : Beneficiary} (ha : as[j]? = some a) (hm : a.mint ≠ .default)
    (hb : v.beneficiaries[a.beneficiaryIndex]? = some b)
    (hthere : (w.tokenAccounts (canonicalAta c b.wallet a.mint)).isSome = true)
    (hlower : ∀ k < j, Bitmask.test (w.estate c o).planBits k = true)
    (hclear : Bitmask.test (w.estate c o).planBits j = false) :
    ∃ w', exec c (.executeSpecificAsset ⟨payer, .vault o, .execution (.vault o),
        .assetPlan (.vault o), a.mint, .tokenDist (.vault o) a.mint,
        canonicalAta c (.vault o) a.mint, canonicalAta c b.wallet a.mint,
        c.tokenProgram a.mint⟩ j) w = .ok w' ∧ Payable c node o v as w' ∧
      (∀ k, Bitmask.test (w.estate c o).planBits k = true →
        Bitmask.test (w'.estate c o).planBits k = true) ∧
      Bitmask.test (w'.estate c o).planBits j = true := by
  have hmem := List.mem_of_getElem? ha
  have hs := h.pending.reachable.sound.regular
  obtain ⟨v', l, hgate, hpin, -⟩ := h.pending.executing
  obtain ⟨p, hp, hpinned, hlen, hassign, hbits, hb', hself, horder⟩ :=
    h.bequest_facts ha hb hlower hclear hgate.config
  rw [hbits] at hclear
  obtain ⟨d, hd⟩ := Option.isSome_iff_exists.mp (h.opened a hmem hm)
  obtain ⟨x, hx⟩ := Option.isSome_iff_exists.mp (h.serves.vaultAta a hmem hm (h.opened a hmem hm))
  obtain rfl := hs.vaultAtas o a.mint _ x hx
  obtain ⟨y, hy⟩ := Option.isSome_iff_exists.mp hthere
  obtain rfl := h.serves.account a hmem hm b hb y hy
  obtain ⟨w', hexec⟩ := executeSpecificAsset_progress hs.fresh hsign
    ⟨hgate.config, hgate.log, hgate.seeds⟩ hpin hp hpinned hd (h.pending.lawful.dist _ d hd).1
    (h.serves.mint a hmem hm) (hassign.symm ▸ ha) hm hb' hself hx hy (horder _) hclear
  obtain ⟨_, _, q, _, _, _, _, -, -, -, -, -, -, -, -, -, -, -, -, -, -, heq⟩ :=
    executeSpecificAsset_ok hexec
  obtain ⟨hnext, hmono⟩ := h.executed (i := .executeSpecificAsset _ j) hexec rfl rfl fun m hm => by
    rw [heq] at hm
    exact hm
  refine ⟨w', hexec, hnext, hmono, ?_⟩
  rw [heq, Ready.planBits_of_plan (q := { q with paidMask := Bitmask.mark q.paidMask j })
    (Function.update_self ..)]
  exact Bitmask.test_mark_self (((List.getElem?_eq_some_iff.mp ha).1).trans_le hlen) _

end Payable

/-! ## Bequests -/

/-- The pass has paid the first `n` bequests, and given up on no mint. -/
structure Paid (c : Cluster) (node : Node) (o : Pubkey) (v : VaultConfig)
    (as : List AssetAssignment) (mask : BitVec 64) (n : Nat) (r : Run World) : Prop where
  payable : Payable c node o v as r.net
  read : ∀ j, bitSet mask j = true → Bitmask.test (r.net.estate c o).planBits j = true
  paid : ∀ k < n, Bitmask.test (r.net.estate c o).planBits k = true
  free : r.stuckMints = []

/-- What the selection says of the mint of a bequest. -/
def Programmed (c : Cluster) (as : List AssetAssignment) (mints : List (Pubkey × ProgramId)) :
    Prop :=
  ∀ a ∈ as, a.mint ≠ .default →
    ((mints.find? fun m => m.1 = a.mint).map (·.2)).getD (.token .token) =
      .token (c.tokenProgram a.mint)

theorem getAssociatedTokenAddress_ok (client : Client World) (mint owner : Pubkey) (allow : Bool)
    (h : allow = true ∨ client.onCurve owner = true) (programId : ProgramId)
    (r : Run World) : getAssociatedTokenAddress client mint owner allow programId r =
      .ok (client.ata mint owner programId) r := by
  unfold getAssociatedTokenAddress
  rw [if_neg]
  · rfl
  · rintro ⟨hallow, hcurve⟩
    rcases h with h | h
    · exact Bool.false_ne_true (hallow.symm.trans h)
    · exact Bool.false_ne_true (hcurve.symm.trans h)

namespace Paid

variable {mask : BitVec 64} {n : Nat} {r r' : Run World}

/-- The next bequest is paid. -/
theorem next (h : Paid c node o v as mask n r) (hpayable : Payable c node o v as r'.net)
    (hmono : ∀ k, Bitmask.test (r.net.estate c o).planBits k = true →
      Bitmask.test (r'.net.estate c o).planBits k = true)
    (hbit : Bitmask.test (r'.net.estate c o).planBits n = true)
    (hstuck : r'.stuckMints = r.stuckMints) : Paid c node o v as mask (n + 1) r' := by
  refine ⟨hpayable, fun j hj => hmono j (h.read j hj), fun k hk => ?_, hstuck.trans h.free⟩
  rcases Nat.lt_succ_iff_lt_or_eq.mp hk with hk | rfl
  · exact hmono k (h.paid k hk)
  · exact hbit

theorem isStuck (h : Paid c node o v as mask n r) (m : Pubkey) : isStuck m r = .ok false r := by
  show EStateM.Result.ok (decide (m ∈ r.stuckMints)) r = _
  rw [h.free]
  rfl

end Paid

theorem walletAt_ok {beneficiaries : List Beneficiary} {i : Nat} {b : Beneficiary}
    (h : beneficiaries[i]? = some b) (r : Run World) :
    walletAt beneficiaries i r = .ok b.wallet r := by
  unfold walletAt
  rw [h]
  rfl

theorem Job.OnNode.payBequest (hjob : job.OnNode c node) (hvault : job.vault = .vault o)
    (hsign : job.payer.canSign = true) {mask : BitVec 64} {n : Nat} {a : AssetAssignment}
    (ha : as[n]? = some a) {mints : List (Pubkey × ProgramId)} (hprogram : Programmed c as mints) :
    Meets (fun r => Midway c o v as mask n r.net r.stuckMints ∧ Paid c node o v as mask n r)
      (job.specificBequest v.beneficiaries mints mask (a, n))
      (fun _ => Paid c node o v as mask (n + 1)) (fun _ _ => False) := by
  rintro r ⟨hmidway, hpaid⟩
  obtain ⟨b, hb, -⟩ := hpaid.payable.beneficiary ha
  have hmem := List.mem_of_getElem? ha
  unfold Job.specificBequest
  dsimp only
  cases hbit : bitSet mask n with
  | true => exact hpaid.next hpaid.payable (fun _ h => h) (hpaid.read n hbit) rfl
  | false =>
      have hclear := hmidway.clear hbit
      rw [if_neg Bool.false_ne_true, run_bind_ok (hpaid.isStuck a.mint), Bool.and_false,
        if_neg Bool.false_ne_true, run_bind_ok (walletAt_ok hb r)]
      by_cases hm : a.mint = .default
      · rw [if_pos (decide_eq_true hm)]
        obtain ⟨w', hexec, hnext, hmono, hset⟩ :=
          hpaid.payable.specificSol hsign ha hm hb hpaid.paid hclear
        have hlands : (Submission.invoke (.executeSpecificSol ⟨job.payer, job.vault,
            .execution job.vault, .assetPlan job.vault, b.wallet⟩ n)).lands c r.net = some w' := by
          rw [Submission.lands, hvault, hexec]
          rfl
        obtain ⟨r', hsent, rfl, hstuck⟩ := hjob.send_lands hlands
        rw [Job.attempt_ok hsent]
        exact hpaid.next hnext hmono hset hstuck
      · rw [if_neg (by simpa using hm), hprogram a hmem hm]
        have hserves := hpaid.payable.serves
        have hvaultAta := getAssociatedTokenAddress_ok job.client a.mint job.vault true
          (.inl rfl) (.token (c.tokenProgram a.mint)) r
        have hbenAta := getAssociatedTokenAddress_ok job.client a.mint b.wallet false
          (.inr (hjob.client ▸ hserves.onCurve a hmem hm b hb)) (.token (c.tokenProgram a.mint)) r
        obtain ⟨r₁, accounts, hensure, hstuck₁, hnet₁, hthere⟩ := hjob.ensureAta_ok
          (hserves.mint a hmem hm) (hserves.apart ..) (hserves.account a hmem hm b hb)
        have hpayable₁ : Payable c node o v as r₁.net := hnet₁ ▸ hpaid.payable.createAtas accounts
        have hsame : (r₁.net.estate c o).planBits = (r.net.estate c o).planBits := by
          rw [hnet₁, estate_createAtas]
        obtain ⟨w', hexec, hnext, hmono, hset⟩ := hpayable₁.specificAsset hsign ha hm hb hthere
          (hsame ▸ hpaid.paid) (hsame ▸ hclear)
        have hlands : (Submission.invokeWith (.token (c.tokenProgram a.mint)) [] fun program =>
            .executeSpecificAsset ⟨job.payer, job.vault, .execution job.vault,
              .assetPlan job.vault, a.mint, .tokenDist job.vault a.mint,
              canonicalAta c job.vault a.mint, canonicalAta c b.wallet a.mint, program⟩ n).lands
            c r₁.net = some w' := by
          rw [Submission.lands, harvest_nil, hvault, hexec]
          rfl
        obtain ⟨r', hsent, rfl, hstuck⟩ := hjob.send_lands hlands
        rw [@Job.attempt_ok job _ _ r r']
        · exact hpaid.next hnext (hsame ▸ hmono) hset (hstuck.trans hstuck₁)
        · exact (run_bind_ok hvaultAta).trans ((run_bind_ok hbenAta).trans
            ((run_bind_ok hensure).trans hsent))

/-- All of the bequests. -/
theorem Job.OnNode.payBequests (hjob : job.OnNode c node) (hvault : job.vault = .vault o)
    (hsign : job.payer.canSign = true) {mask : BitVec 64} {mints : List (Pubkey × ProgramId)}
    (hprogram : Programmed c as mints) :
    Meets (fun r => Midway c o v as mask 0 r.net r.stuckMints ∧ Paid c node o v as mask 0 r)
      (as.zipIdx.forM (job.specificBequest v.beneficiaries mints mask))
      (fun _ => Paid c node o v as mask as.length) (fun _ _ => False) := by
  have hloop := Meets.forM_prefix as.zipIdx (E := fun _ _ => False)
    (f := job.specificBequest v.beneficiaries mints mask)
    (I := fun done r => Midway c o v as mask done.length r.net r.stuckMints ∧
      Paid c node o v as mask done.length r)
    fun done entry rest hdone => ?_
  · rw [List.length_nil, List.length_zipIdx] at hloop
    exact hloop.mono (fun _ h => h) (fun _ _ h => h.2) fun _ _ h => h
  · obtain ⟨a, n⟩ := entry
    have hentry : as.zipIdx[done.length]? = some (a, n) := by
      rw [hdone, List.getElem?_append_right le_rfl, Nat.sub_self, List.getElem?_cons_zero]
    rw [List.getElem?_zipIdx, Option.map_eq_some_iff] at hentry
    obtain ⟨x, hx, heq⟩ := hentry
    obtain ⟨rfl, rfl⟩ := Prod.mk.inj heq
    rw [List.length_append, List.length_singleton, Nat.zero_add]
    have hmidway := hjob.specificBequest (v := v) hvault hx mask v.beneficiaries mints
    exact (hmidway.and (hjob.payBequest hvault hsign hx hprogram)).mono (fun _ h => ⟨h.1, h⟩)
      (fun _ _ h => h) fun _ _ h => h.2

/-! ## SOL shares -/

/-- The pass has paid all bequests and the shares of these batches. -/
structure Shared (c : Cluster) (node : Node) (o : Pubkey) (v : VaultConfig)
    (as : List AssetAssignment) (mask : BitVec 32) (done : List (List Nat)) (r : Run World) :
    Prop where
  payable : Payable c node o v as r.net
  bequests : ∀ k < as.length, Bitmask.test (r.net.estate c o).planBits k = true
  read : ∀ i, bitSet mask i = true → Bitmask.test (r.net.estate c o).shareBits i = true
  paid : ∀ part ∈ done, ∀ i ∈ part, Bitmask.test (r.net.estate c o).shareBits i = true
  free : r.stuckMints = []

/-- The wallets of a batch. -/
theorem mapM_wallets (beneficiaries : List Beneficiary) (part : List Nat)
    (hpart : ∀ i ∈ part, i < beneficiaries.length) :
    ∃ accounts, Gives (part.mapM fun i => do
        return (⟨← walletAt beneficiaries i, true⟩ : AccountMeta) : Routine World _) accounts ∧
      part.length = accounts.length ∧ ∀ entry ∈ part.zip accounts,
        ∃ b, beneficiaries[entry.1]? = some b ∧ entry.2 = ⟨b.wallet, true⟩ := by
  let wallet : Nat → AccountMeta :=
    fun i => ⟨((beneficiaries[i]?).map (·.wallet)).getD .default, true⟩
  have hzip : part.zip (part.map wallet) = part.map fun i => (i, wallet i) := by
    simpa using List.zip_map' (f := id) (g := wallet) (l := part)
  have hfound : ∀ i ∈ part, ∃ b, beneficiaries[i]? = some b ∧ wallet i = ⟨b.wallet, true⟩ := by
    intro i hi
    have hb := List.getElem?_eq_getElem (hpart i hi)
    exact ⟨_, hb, by simp only [wallet, hb, Option.map_some, Option.getD_some]⟩
  refine ⟨part.map wallet, Gives.mapM fun i hi => ?_, (List.length_map _).symm, ?_⟩
  · obtain ⟨b, hb, heq⟩ := hfound i hi
    have hwallet : Gives (walletAt (σ := World) beneficiaries i) b.wallet := walletAt_ok hb
    refine hwallet.bind ?_
    rw [heq]
    exact .pure _
  · intro entry hentry
    rw [hzip, List.mem_map] at hentry
    obtain ⟨i, hi, rfl⟩ := hentry
    exact hfound i hi

theorem Payable.sharable {v' : VaultConfig} {l : ExecutionLog} (h : Payable c node o v as w)
    (hv' : w.vaultConfigs (.vault o) = some v')
    (hl : w.executionLogs (.execution (.vault o)) = some l) : Sharable c o v' l w.fresh :=
  ⟨h.pending.reachable.sound.regular.fresh, h.unobstructed, h.pending.reachable.solvent o, hv',
    l, hl, rfl⟩

/-- A batch goes through. -/
theorem Payable.solShares (h : Payable c node o v as w) (hsign : payer.canSign = true)
    {part : List Nat} {accounts : List AccountMeta} (hlen : part.length = accounts.length)
    (haddressed : ∀ entry ∈ part.zip accounts, Addressed v entry) :
    ∃ w', exec c (.executeSolShares ⟨payer, .vault o, .execution (.vault o), accounts⟩ part) w =
        .ok w' ∧ Payable c node o v as w' ∧
      (∀ k, Bitmask.test (w.estate c o).planBits k = true →
        Bitmask.test (w'.estate c o).planBits k = true) ∧
      (∀ i, Bitmask.test (w.estate c o).shareBits i = true →
        Bitmask.test (w'.estate c o).shareBits i = true) ∧
      ∀ i ∈ part, Bitmask.test (w'.estate c o).shareBits i = true := by
  obtain ⟨v', l, hgate, hpin, -⟩ := h.pending.executing
  obtain ⟨u, hu, hopen, hbenefs, -⟩ := h.pending.config
  obtain rfl := Option.some.inj (hu.symm.trans hgate.config)
  obtain ⟨w', hturns, -, hmono, hbits⟩ := (h.sharable hgate.config hgate.log).turns
    fun entry hentry => by
      obtain ⟨b, hb, hdest⟩ := haddressed entry hentry
      exact ⟨b, hbenefs.symm ▸ hb, hdest⟩
  have hexec : exec c (.executeSolShares ⟨payer, .vault o, .execution (.vault o), accounts⟩ part) w =
      .ok w' := by
    have hgate' : Executing w.fresh (.vault o) u l := ⟨hgate.config, hgate.log, hgate.seeds⟩
    exact executeSolShares_of_turns hsign hgate' hopen hpin hlen hturns
  have hdists : w'.tokenDists = w.tokenDists := by
    refine hturns.preserves (P := fun t => t.tokenDists = w.tokenDists)
      (fun t entry t' ht hturn => ?_) rfl
    obtain ⟨_, _, -, -, ⟨-, rfl⟩ | ⟨-, -, -, _, _, rfl⟩⟩ := paySolShare_ok hturn
    · exact ht
    · exact ht
  obtain ⟨hnext, hplan⟩ := h.executed (i := .executeSolShares _ part) hexec rfl rfl fun m hm => by
    unfold DistOpen at hm ⊢
    rwa [hdists] at hm
  refine ⟨w', hexec, hnext, hplan, hmono, fun i hi => ?_⟩
  rw [← List.map_fst_zip hlen.le] at hi
  obtain ⟨entry, hentry, rfl⟩ := List.mem_map.mp hi
  exact hbits entry hentry

theorem Job.OnNode.payShares (hjob : job.OnNode c node) (hvault : job.vault = .vault o)
    (hsign : job.payer.canSign = true) {mask : BitVec 32} {done rest : List (List Nat)}
    {part : List Nat}
    (hparts : chunk (Job.unpaid v.beneficiaries mask) batch = done ++ part :: rest) :
    Meets (Shared c node o v as mask done) (job.solShares v.beneficiaries part)
      (fun _ => Shared c node o v as mask (done ++ [part])) (fun _ _ => False) := by
  intro r hr
  have hflat := flatten_chunk (Job.unpaid v.beneficiaries mask) (n := batch) (by decide)
  have hrange : ∀ i ∈ part, i < v.beneficiaries.length := by
    intro i hi
    have hmem : part ∈ chunk (Job.unpaid v.beneficiaries mask) batch := by
      rw [hparts]
      exact List.mem_append_right _ List.mem_cons_self
    have hall := List.mem_flatten_of_mem hmem hi
    rw [hflat] at hall
    exact List.mem_range.mp (List.mem_filter.mp hall).1
  obtain ⟨accounts, hgives, hlen, haddressed⟩ := mapM_wallets v.beneficiaries part hrange
  obtain ⟨reply, hpermit⟩ := hjob.guard
  let r₁ : Run World := { r with log := r.log ++ [.evaluated reply] }
  obtain ⟨w', hexec, hnext, hplan, hmono, hbits⟩ :=
    hr.payable.solShares hsign hlen haddressed
  have hlands : (Submission.invoke (.executeSolShares ⟨job.payer, job.vault,
      .execution job.vault, accounts⟩ part)).lands c r₁.net = some w' := by
    rw [Submission.lands, hvault, hexec]
    rfl
  have hrun : job.solShares v.beneficiaries part r =
      .ok ⟨⟩ ⟨w', r₁.log ++ [.submitted (.invoke (.executeSolShares ⟨job.payer, job.vault,
        .execution job.vault, accounts⟩ part))]⟩ := by
    refine (run_bind_ok (hpermit r)).trans ((run_bind_ok (hgives r₁)).trans ?_)
    rw [hjob.client]
    exact submit_landed hlands
  rw [hrun]
  refine ⟨hnext, fun k hk => hplan k (hr.bequests k hk), fun i hi => hmono i (hr.read i hi),
    fun p hp i hi => ?_, ?_⟩
  · rcases List.mem_append.mp hp with hp | hp
    · exact hmono i (hr.paid p hp i hi)
    · rw [List.mem_singleton.mp hp] at hi
      exact hbits i hi
  · rw [stuckMints_submitted]
    exact (stuckMints_evaluated ..).trans hr.free

/-- Set bits make full masks. -/
theorem Pending.masksFull (h : Pending c o v as w)
    (hshares : ∀ i < v.beneficiaries.length, Bitmask.test (w.estate c o).shareBits i = true)
    (hbequests : ∀ k < as.length, Bitmask.test (w.estate c o).planBits k = true) :
    MasksFull o v w := by
  obtain ⟨u, hu, -, hbenefs, -⟩ := h.config
  obtain ⟨l, hl⟩ := Option.isSome_iff_exists.mp h.log
  have hlaw := h.lawful
  refine ⟨⟨l, hl, ?_⟩, fun p hp => ?_⟩
  · have hsub := hlaw.solMask u l hu hl
    rw [hbenefs] at hsub
    refine (Bitmask.eq_full_iff h.count hsub).mpr fun i hi => ?_
    rw [← Ready.shareBits_of_log (c := c) hl]
    exact hshares i hi
  · obtain ⟨hassign, hbits⟩ := h.plan_assignments hp
    refine (Bitmask.eq_full_iff (hlaw.plan p hp).2 (hlaw.planMask p hp).1).mpr fun k hk => ?_
    rw [← hbits]
    exact hbequests k (hassign ▸ hk)

/-- All of the shares. -/
theorem Job.OnNode.paySharesAll (hjob : job.OnNode c node) (hvault : job.vault = .vault o)
    (hsign : job.payer.canSign = true) (mask : BitVec 32) :
    Meets (Shared c node o v as mask [])
      ((chunk (Job.unpaid v.beneficiaries mask) batch).forM (job.solShares v.beneficiaries))
      (fun _ r => Payable c node o v as r.net ∧ MasksFull o v r.net ∧ r.stuckMints = [])
      (fun _ _ => False) := by
  have hloop := Meets.forM_prefix (chunk (Job.unpaid v.beneficiaries mask) batch)
    (E := fun _ (_ : Run World) => False)
    (I := fun done (r : Run World) => Shared c node o v as mask done r)
    fun done part rest hdone => hjob.payShares hvault hsign hdone
  refine hloop.mono (fun _ h => h) (fun _ r h => ⟨h.payable, ?_, h.free⟩) fun _ _ h => h
  refine h.payable.pending.masksFull (fun i hi => ?_) h.bequests
  cases hbit : bitSet mask i with
  | true => exact h.read i hbit
  | false =>
      have hflat := flatten_chunk (Job.unpaid v.beneficiaries mask) (n := batch) (by decide)
      have hmem : i ∈ Job.unpaid v.beneficiaries mask :=
        List.mem_filter.mpr ⟨List.mem_range.mpr hi, by rw [hbit]; rfl⟩
      rw [← hflat, List.mem_flatten] at hmem
      obtain ⟨part, hpart, hi⟩ := hmem
      exact h.paid part hpart i hi

/-! ## The pass -/

/-- Once its distributions are open, a pass that can pay everything executes the vault. -/
theorem Job.OnNode.settle_executes (hjob : job.OnNode c node) (hvault : job.vault = .vault o)
    (hsign : job.payer.canSign = true) {plan : Option AssetPlan}
    {mints : List (Pubkey × ProgramId)} (hprogram : Programmed c as mints) {r : Run World}
    (h : Payable c node o v as r.net) (hplan : r.net.assetPlans (.assetPlan (.vault o)) = plan)
    (hnone : r.stuckMints = []) :
    Meets (fun r' => r' = r) (job.settle v plan mints) (fun _ r' => MasksFull o v r'.net)
      (fun _ r' => MasksFull o v r'.net) := by
  obtain ⟨hentries, hread⟩ := h.pending.entries hplan
  unfold Job.settle
  rw [hentries]
  refine Meets.bind (Q := fun _ => Paid c node o v as _ as.length)
    ((hjob.payBequests hvault hsign hprogram).mono ?_ (fun _ _ h => h) fun _ _ h => h.elim)
    fun _ => ?_
  · rintro _ rfl
    exact ⟨⟨h.pending, fun j _ hbit => (hread j).mpr hbit, by rw [hnone]; exact nofun⟩,
      ⟨h, fun j hbit => (hread j).mp hbit, nofun, hnone⟩⟩
  refine Meets.bind (Q := fun log => Shared c node o v as log.solPaidMask []) (fun r hr => ?_)
    fun log => ?_
  · obtain ⟨l, hl⟩ := Option.isSome_iff_exists.mp hr.payable.pending.log
    have hfetch : fetch (job.client.executionLog (.execution job.vault)) r = .ok l r := by
      rw [hjob.client, hvault]
      exact fetch_read (by rw [← hl]; rfl)
    rw [hfetch]
    refine ⟨hr.payable, hr.paid, fun i hbit => ?_, nofun, hr.free⟩
    simp only [Estate.shareBits, World.estate, hl, Option.elim_some]
    rwa [Bitmask.test_eq_getLsbD]
  refine Meets.bind ((hjob.paySharesAll hvault hsign log.solPaidMask).mono (fun _ h => h)
    (fun _ _ h => h) fun _ _ h => h.elim) fun _ => ?_
  refine Meets.bind (Q := fun _ r' => MasksFull o v r'.net) (fun r hr => ?_) fun _ => ?_
  · obtain ⟨hpayable, hfull, hfree⟩ := hr
    obtain ⟨r', hrun, -, -, hfull'⟩ := (hjob.run_finalize hvault hsign hpayable.pending
      (by rw [hfree]; exact nofun)).1 hfull
    rw [hrun]
    exact hfull'
  have hclosed := hjob.closed (S := Trailing c o)
  have htokens := hclosed.forM mints fun entry => hclosed.tokenShares v.beneficiaries
    (fun _ _ _ _ _ => trailing_createAta ..) (fun key => hjob.preserves_tokenDist key)
    (fun _ _ _ _ => trailing_tokenShares ..) entry
  refine (htokens.meets _ stable_masksFull).bind fun _ => ?_
  exact fun _ h => h

end DeadMansVault.Crank
