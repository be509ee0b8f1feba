-- SUMMARY: What the close of a distribution sweeps to one heir, and when that is rounding alone.
import DeadMansVault.Estate.Dust
import DeadMansVault.Guarantees.Distributions
import DeadMansVault.Guarantees.Payouts

/-!
# Dust

`begin_token_dist` subtracts every bequest of the mint from the balance, the paid ones
too. In the first distribution of a mint that leaves rounding for the close to sweep;
in a later one it leaves the bequests of the earlier one.
-/

namespace DeadMansVault

open World

variable {c : Cluster} {o m : Pubkey} {s₀ s₁ s₂ s₃ s₄ : World} {es₀ es : List Event}

/-- What returns to an account also leaves it. -/
theorem returned_leaves (moves : List Movement) :
    returned c o m (moves.filter (Movement.leaves c o)) = returned c o m moves := by
  unfold returned
  rw [List.filter_filter]
  congr 2
  apply List.filter_congr
  intro mv _
  cases hret : Movement.returns c o m mv with
  | false => rfl
  | true =>
      unfold Movement.returns at hret
      split at hret
      · obtain ⟨hasset, hsource, -⟩ := of_decide_eq_true hret
        simp [Movement.leaves, hasset, hsource]
      · cases hret

/-- The close of a distribution pays out its dust and nothing else of the mint. -/
theorem closeTokenDist_payouts {ctx : CloseTokenDist} {v : VaultConfig}
    (ho : ctx.vaultConfig = .vault o) (hv : s₃.vaultConfigs (.vault o) = some v)
    (h : exec c (.closeTokenDist ctx) s₃ = .ok s₄) {b : Beneficiary}
    (hb : v.beneficiaries[largestShareIndex v.beneficiaries]? = some b) :
    payoutsOf (.token ctx.mint) s₄.moved = Payout.made
      ⟨b.wallet, s₃.tokenAmounts (canonicalAta c (.vault o) ctx.mint), .tokenDust⟩ := by
  obtain ⟨w, d, dest, recipient, t₁, t₂, -, hw, -, -, -, -, hdust, rfl, -, -, rfl, rfl⟩ :=
    closeTokenDist_ok h
  rw [ho] at hw hdust ⊢
  obtain rfl : v = w := Option.some.inj (hv.symm.trans hw)
  simp only [putTokenDist_moved, sendLamports_moved, putVaultConfig_moved, dropTokenAccount_moved,
    payTokens_moved, fresh_moved, List.nil_append, payoutsOf_append, payoutsOf_made,
    Movement.payout, if_true]
  have hrefund : ∀ mv : Movement, mv.asset = .sol → payoutsOf (.token ctx.mint) [mv] = [] := by
    intro mv hmv
    simp [payoutsOf, hmv]
  rw [hrefund _ rfl, hrefund _ rfl, List.append_nil, List.append_nil]
  unfold Payout.made
  split
  · rename_i hpos
    obtain ⟨b', hb', rfl⟩ := (hdust hpos).1
    obtain rfl : b = b' := Option.some.inj (hb.symm.trans hb')
    simp only [fresh_tokenAmounts] at hpos ⊢
    rw [if_pos hpos]
  · rename_i hzero
    simp only [fresh_tokenAmounts] at hzero
    rw [if_neg hzero]

/-- **Dust.** Take a distribution, opened when the canonical account covers the unpaid
    bequests of its mint, and without deposits until its close. The close sweeps to the
    beneficiary with the largest share what was set aside beyond the unpaid bequests,
    what was paid back into the account itself, and the rounding. So the sweep stays
    below one unit for each beneficiary if and only if these three do, and always when
    nothing was set aside twice and nothing came back; the rest went to shares and
    bequests. -/
theorem close_dust {dist : BeginTokenDist} {close : CloseTokenDist} (hinit : Initial c s₀)
    (hpre : Trace (fun t e t' => Step c t e t' ∧ ¬ e.Overflows o t) s₀ es₀ s₁)
    (ho : dist.vaultConfig = .vault o) (hm : dist.mint = m)
    (hdist : exec c (.beginTokenDist dist) s₁ = .ok s₂)
    (hfit : ¬ (Event.executed (.beginTokenDist dist) s₂.moved).Overflows o s₁)
    (hfund : (s₁.estate c o).unpaidOf m ≤ s₁.tokenAmounts (canonicalAta c (.vault o) m))
    (hrun : Trace (fun t e t' => Step c t e t' ∧ ¬ e.Overflows o t ∧
      t'.tokenAmounts (canonicalAta c (.vault o) m) ≤
        t.tokenAmounts (canonicalAta c (.vault o) m)) s₂ es s₃)
    (hopen : ∀ e ∈ es, e.closesDist o m = false)
    (ho' : close.vaultConfig = .vault o) (hm' : close.mint = m)
    (hclose : exec c (.closeTokenDist close) s₃ = .ok s₄) :
    let bal := s₁.tokenAmounts (canonicalAta c (.vault o) m)
    let snapshot := bal - bequeathed (s₁.estate c o).assignments m
    let reserved := (s₁.estate c o).overReserved m
    let back := returned c o m (es.flatMap Event.moved)
    ∃ v b dust, s₃.vaultConfigs (.vault o) = some v ∧
      v.beneficiaries[largestShareIndex v.beneficiaries]? = some b ∧
      payoutsOf (.token m) s₄.moved = Payout.made ⟨b.wallet, dust, .tokenDust⟩ ∧
      (dust ≤ v.beneficiaries.length - 1 ↔
        reserved + back + roundingLoss v.beneficiaries snapshot ≤ v.beneficiaries.length - 1) ∧
      (reserved = 0 → back = 0 → dust ≤ v.beneficiaries.length - 1) ∧
      bal + back = dust + (s₁.estate c o).unpaidOf m +
        ∑ i ∈ Finset.range v.beneficiaries.length, share v.beneficiaries snapshot i ∧
      ∀ p ∈ outflow c o (.token m) es,
        (∃ i, p.purpose = .tokenShare i) ∨ ∃ j, p.purpose = .specificAsset j := by
  intro bal snapshot reserved back
  subst hm
  obtain ⟨hsound₁, hlaw₁, hT₁⟩ := tallied_trace hinit hpre
  have hreach₁ : Reachable c s₁ := ⟨s₀, es₀, hinit, hpre.mono fun _ _ _ hstep => hstep.1⟩
  have hreach₂ : Reachable c s₂ := hreach₁.step (.executed hdist)
  have hsound₃ := (hreach₂.trace (hrun.mono fun _ _ _ hstep => hstep.1)).sound
  have hsound₂ := hreach₂.sound
  have hbegin := (beginTokenDist_performs (c := c) ho hsound₁.regular.fresh hdist).run
  obtain ⟨_, hbegin, hnil⟩ := Trace.cons_iff.mp hbegin
  obtain rfl := Trace.nil_iff.mp hnil
  obtain ⟨moves, hlast⟩ := closeTokenDist_performs (c := c) ho' hsound₃.regular.fresh hclose
  obtain ⟨_, hlast, hnil⟩ := Trace.cons_iff.mp hlast.run
  obtain rfl := Trace.nil_iff.mp hnil
  rw [hm'] at hlast
  -- The run as steps of the estate that neither close nor feed the distribution.
  obtain ⟨actss, hans, hacts⟩ := run_refines_side
    (T := fun E a E' => Estate.Step c o E a E' ∧ ¬ E.Overflows a ∧
      (a.deed = .interfere → E'.holding dist.mint ≤ E.holding dist.mint))
    (fun _ _ _ hstep => hstep.1) (fun t e t' acts ⟨_, hfit, hquiet⟩ hans hacts => by
      refine hans.sides hacts (fun a hone => ⟨(hone ▸ hans).not_overflows hfit, fun _ => hquiet⟩) ?_
      intro E a E' hbatch
      exact ⟨not_overflows_of_batched hbatch, fun hint => by simp [hint, Deed.batched] at hbatch⟩)
    hsound₂ hrun
  have hdust := hacts.restrict (forall_acts hans fun e he acts hacts =>
    hacts.not_closeDist (hopen e he))
  have hmoves := moves_flatten hans
  obtain ⟨u, _, _, -, hgate, -⟩ := beginTokenDist_ok hsound₁.regular.fresh.vacant hdist
  have hu : s₁.vaultConfigs (.vault o) = some u := ho ▸ hgate.config
  have hone : ¬ (s₁.estate c o).Overflows ⟨.beginDist dist.mint, []⟩ := by
    rintro ⟨_, v, -, hv, hfull⟩
    exact hfit ⟨dist, _, v, rfl, ho, hv, hfull⟩
  obtain ⟨heq, hsum, ⟨w, hw, hbenef⟩, hkinds⟩ :=
    hlaw₁.dust (hreach₁.paidUp o) hT₁ hu hfund hbegin hone hdust hlast rfl
  rw [hmoves, returned_leaves] at heq hsum
  rw [hmoves] at hkinds
  obtain ⟨hacc, -⟩ := (hreach₁.lawful o).accepted u hu
  have hloss := roundingLoss_le snapshot hacc.count.1 hacc.shares
  obtain ⟨b, hb, -⟩ := largestShareIndex_spec hacc.count.1
  rw [← hbenef] at heq hsum hloss hb
  refine ⟨w, b, _, hw, hb, hm' ▸ closeTokenDist_payouts ho' hw hclose hb, ?_, ?_, ?_, hkinds⟩
  · change (s₃.estate c o).holding dist.mint ≤ _ ↔ _
    rw [heq]
    rfl
  · intro hreserved hback
    change (s₃.estate c o).holding dist.mint ≤ _
    rw [heq, show (s₁.estate c o).overReserved dist.mint = 0 from hreserved,
      show returned c o dist.mint (es.flatMap Event.moved) = 0 from hback, Nat.zero_add]
    exact hloss
  · exact hsum

/-- The counter of the sample vault has room for one more distribution. -/
def hasRoom (s : World) (_ : Event) (_ : World) : Bool :=
  (s.vaultConfigs Sample.vault).all fun v => decide (v.openTokenDists < u16Max)

theorem not_overflows_of_hasRoom {e : Event} (h : hasRoom s₁ e s₂ = true) :
    ¬ e.Overflows Sample.owner s₁ := by
  rintro ⟨_, _, v, -, -, hv, hfull⟩
  have hv' : s₁.vaultConfigs Sample.vault = some v := hv
  simp only [hasRoom, hv', Option.all_some, decide_eq_true_eq] at h
  omega

/-- The first distribution of the sample vault leaves less than one unit for each heir. -/
theorem close_dust_sample :
    let s₁ := Sample.genesis.world.play Sample.cluster (Sample.setup ++
      [.run (.beginExecution Sample.beginExecution), Sample.executeSolShares [Sample.bob] [1]])
    let s₂ := s₁.cue Sample.cluster (.run (.beginTokenDist Sample.beginTokenDist))
    let s₃ := s₂.play Sample.cluster Sample.tokenPayouts
    let s₄ := s₃.cue Sample.cluster (.run (.closeTokenDist Sample.closeTokenDist))
    ∃ (v : VaultConfig) (b : Beneficiary) (dust : Nat), s₃.vaultConfigs Sample.vault = some v ∧
      payoutsOf (.token Sample.gold) s₄.moved = Payout.made ⟨b.wallet, dust, .tokenDust⟩ ∧
      dust ≤ v.beneficiaries.length - 1 := by
  intro s₁ s₂ s₃ s₄
  have hinit := Genesis.initial (c := Sample.cluster) Sample.genesis_consistent
  have hpre : Trace (fun t e t' => Step Sample.cluster t e t' ∧ hasRoom t e t' = true) _ _ s₁ :=
    (Reachable.initial hinit).sound.play (by decide +kernel)
  have hreach : Reachable Sample.cluster s₁ :=
    ⟨_, _, hinit, hpre.mono fun _ _ _ hstep => hstep.1⟩
  have hbegin : exec Sample.cluster (.beginTokenDist Sample.beginTokenDist) s₁ = .ok s₂ :=
    exec_cue (by decide +kernel)
  have hroom : hasRoom s₁ (.executed (.beginTokenDist Sample.beginTokenDist) s₂.moved) s₂ = true := by
    decide +kernel
  have hrun : Trace (fun t e t' => Step Sample.cluster t e t' ∧ (hasRoom t e t' &&
      decide (t'.tokenAmounts (Sample.ata Sample.vault) ≤
        t.tokenAmounts (Sample.ata Sample.vault))) = true) s₂ _ s₃ :=
    (hreach.step (.executed hbegin)).sound.play (by decide +kernel)
  have hclose : exec Sample.cluster (.closeTokenDist Sample.closeTokenDist) s₃ = .ok s₄ :=
    exec_cue (by decide +kernel)
  obtain ⟨v, b, dust, hv, -, hpaid, -, hle, -⟩ := close_dust (m := Sample.gold) hinit
    (hpre.mono fun _ _ _ hstep => ⟨hstep.1, not_overflows_of_hasRoom hstep.2⟩) rfl rfl hbegin
    (not_overflows_of_hasRoom hroom) (by decide +kernel)
    (hrun.mono fun _ _ _ hstep => by
      obtain ⟨hroom, hquiet⟩ := Bool.and_eq_true_iff.mp hstep.2
      exact ⟨hstep.1, not_overflows_of_hasRoom hroom, of_decide_eq_true hquiet⟩)
    (by decide +kernel) rfl rfl hclose
  have hsmall := hle (by decide +kernel) (by decide +kernel)
  clear_value s₁ s₂ s₃ s₄
  exact ⟨v, b, dust, hv, hpaid, hsmall⟩

/-- The larger heir, who was paid 73 units, sends 50 of them back to the vault. -/
def Sample.replenished : World :=
  settled.deposit cluster (ata alice) owner gold 50

/-- In the second distribution of a mint its bequest, paid in the first one, is swept
    to one heir instead of being shared. -/
theorem close_dust_second_lifetime :
    ∃ (s₁ s₂ s₃ s₄ : World) (es : List Event) (v : VaultConfig) (b : Beneficiary) (dust : Nat),
      Reachable Sample.cluster s₁ ∧
      exec Sample.cluster (.beginTokenDist Sample.beginTokenDist) s₁ = .ok s₂ ∧
      (s₁.estate Sample.cluster Sample.owner).unpaidOf Sample.gold ≤
        s₁.tokenAmounts (Sample.ata Sample.vault) ∧
      Trace (fun t e t' => Step Sample.cluster t e t' ∧
        t'.tokenAmounts (Sample.ata Sample.vault) ≤ t.tokenAmounts (Sample.ata Sample.vault))
        s₂ es s₃ ∧
      (∀ e ∈ es, e.closesDist Sample.owner Sample.gold = false) ∧
      exec Sample.cluster (.closeTokenDist Sample.closeTokenDist) s₃ = .ok s₄ ∧
      s₃.vaultConfigs Sample.vault = some v ∧
      payoutsOf (.token Sample.gold) s₄.moved = Payout.made ⟨b.wallet, dust, .tokenDust⟩ ∧
      v.beneficiaries.length - 1 < dust := by
  have hsource : Sample.settled.tokenAccounts (Sample.ata Sample.alice) =
      some ⟨some .token, Sample.gold, Sample.alice⟩ := by decide +kernel
  have hdeposit : Environment Sample.cluster Sample.settled Sample.replenished :=
    Sample.settled_reachable.sound.regular.deposit hsource (by rintro _ ⟨⟩) (by decide +kernel)
  have hreach := Sample.settled_reachable.step (.environment hdeposit)
  have hbegin : exec Sample.cluster (.beginTokenDist Sample.beginTokenDist) Sample.replenished =
      .ok (Sample.replenished.cue Sample.cluster (.run (.beginTokenDist Sample.beginTokenDist))) :=
    exec_cue (by decide +kernel)
  have hplays : World.plays Sample.cluster (fun t _ t' => decide
      (t'.tokenAmounts (Sample.ata Sample.vault) ≤ t.tokenAmounts (Sample.ata Sample.vault)))
      (Sample.replenished.cue Sample.cluster (.run (.beginTokenDist Sample.beginTokenDist)))
      [Sample.executeTokenShares [Sample.alice, Sample.bob] [0, 1]] = true := by decide +kernel
  have hrun := (hreach.step (.executed hbegin)).sound.play hplays
  refine ⟨_, _, _, _, _, { Sample.config with executed := true, active := false, openTokenDists := 1 },
    ⟨Sample.alice, 6_000⟩, 30, hreach, hbegin, by decide +kernel,
    hrun.mono fun _ _ _ hstep => ⟨hstep.1, of_decide_eq_true hstep.2⟩, by decide +kernel,
    exec_cue (by decide +kernel), by decide +kernel, by decide +kernel, by decide⟩

end DeadMansVault
