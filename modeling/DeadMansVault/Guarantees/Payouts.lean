-- SUMMARY: What an execution pays out, over all runs: the SOL of a vault, and the tokens of a mint.
import DeadMansVault.Guarantees.Solvency
import DeadMansVault.Program.Scenario

/-!
# Payout specifications

Whoever calls, and in whatever order, an execution pays the same: these theorems
compare everything that left the vault with what its terms promise.
-/

namespace DeadMansVault

open World

variable {c : Cluster} {o : Pubkey} {s s' : World}

/-- Everything in `asset` that left the vault of `o`, or its canonical account for a
    mint, in the events of a run. -/
def outflow (c : Cluster) (o : Pubkey) (asset : Asset) (es : List Event) : List Payout :=
  payoutsOf asset ((es.flatMap Event.moved).filter (Movement.leaves c o))

/-! ## SOL -/

/-- Until its finalize, an execution that starts unexecuted is not closed. -/
theorem sol_steps {E E' : Estate} {acts : List Act} (hexec : ∀ v, E.config = some v → v.executed = false)
    (hrun : Trace (fun E a E' => Estate.Step c o E a E' ∧
      (a.deed = .interfere → E'.lamports ≤ E.lamports)) E acts E')
    (hfin : ∀ a ∈ acts, ∀ payer, a.deed ≠ .finalize payer) :
    Trace (Estate.SolStep c o) E acts E' := by
  have hkeep := (hrun.restrict hfin).strengthen
    (P := fun F => ∀ v, F.config = some v → v.executed = false)
    (fun F a F' hF hstep => hstep.1.1.unexecuted hF hstep.2) hexec
  refine hkeep.mono fun F a F' ⟨⟨⟨hstep, hquiet⟩, hfin⟩, hF, _⟩ => ⟨hstep, ?_, hfin, hquiet⟩
  intro hclose
  obtain ⟨v, hv, hx⟩ := hstep.close_executed hclose
  rw [hF v hv] at hx
  cases hx

/-- **SOL payouts.** Let `D` be the lamports above rent and `S` the sum of the SOL
    assignments when the execution begins. In every order of its steps, by whichever
    callers and with whatever failures in between, what leaves the vault up to the
    finalize is: every share of `D - S - bounty`, every SOL assignment in full and
    the bounty, when `D` reaches for the assignments and the bounty; otherwise no
    share, the assignments in ascending order as far as `D` reaches, and the bounty
    out of what they leave. -/
theorem sol_payout_specification {ctx : BeginExecution} {fin : FinalizeExecution}
    {v : VaultConfig} {s₁ s₂ s₃ : World} {es : List Event} {assignments : List AssetAssignment}
    {D S : Nat} (hreach : Reachable c s) (ho : ctx.vaultConfig = .vault o)
    (hv : s.vaultConfigs (.vault o) = some v)
    (hplan : assignments = (s.assetPlans (.assetPlan (.vault o))).elim [] (·.assignments))
    (hD : D = s.lamports (.vault o) - c.minimumBalance VaultConfig.space)
    (hS : S = bequeathed assignments .default)
    (hbegin : exec c (.beginExecution ctx) s = .ok s₁)
    (hrun : Trace (fun t e t' => Step c t e t' ∧ t'.lamports (.vault o) ≤ t.lamports (.vault o))
      s₁ es s₂)
    (hopen : ∀ e ∈ es, e.finalizes o = false) (ho' : fin.vaultConfig = .vault o)
    (hfin : exec c (.finalizeExecution fin) s₂ = .ok s₃) :
    let out := outflow c o .sol (es ++ [.executed (.finalizeExecution fin) s₃.moved])
    (S + v.keeperBounty ≤ D → out.Perm
      (sharePayouts v.beneficiaries .solShare (D - S - v.keeperBounty) ++
        bequestPayouts v.beneficiaries assignments .specificSol (bequest assignments .default) ++
        Payout.made ⟨fin.payer, v.keeperBounty, .bounty⟩)) ∧
    (D < S + v.keeperBounty → out.Perm
      (bequestPayouts v.beneficiaries assignments .specificSol (granted assignments .default D) ++
        Payout.made ⟨fin.payer, min v.keeperBounty (D - S), .bounty⟩)) ∧
    s₃.lamports (.vault o) + (out.map (·.amount)).sum = s.lamports (.vault o) := by
  intro out
  have hreach₁ : Reachable c s₁ := hreach.step (.executed hbegin)
  have hsound₂ : s₂.Sound c := (hreach₁.trace (hrun.mono fun _ _ _ h => h.1)).sound
  have hstep := begin_step hreach.sound ho hbegin
  -- The run as steps of the estate, up to the finalize.
  obtain ⟨actss, hans, hacts⟩ := run_refines_side (fun _ _ _ hstep => hstep.1)
    (fun _ _ _ _ hstep hans hacts => hans.quiet (x := Estate.lamports) hacts hstep.2)
    hreach₁.sound hrun
  obtain ⟨moves, hlast⟩ := finalizeExecution_performs (c := c) ho' hfin
  obtain ⟨_, hfinStep, hnil⟩ := Trace.cons_iff.mp hlast.run
  obtain rfl := Trace.nil_iff.mp hnil
  have hunexec : ∀ w, (s₁.estate c o).config = some w → w.executed = false := by
    obtain ⟨w, hb, hw, -, -, hexec, -, heq⟩ := hstep.begin_eq rfl
    intro w' hw'
    rw [heq] at hw'
    obtain rfl : w = w' := by
      have hsome : some w = some w' := hw.symm.trans hw'
      simpa using hsome
    exact hexec
  have hsol := sol_steps hunexec hacts
    (forall_acts hans fun e he acts hacts => hacts.not_finalize (hopen e he))
  have hout : out = payoutsOf .sol
      ((actss.flatten ++ [Act.mk (.finalize fin.payer) moves]).flatMap Act.moves) := by
    have hmoved : s₃.moved.filter (Movement.leaves c o) = moves := by
      simpa using hlast.moved
    simp only [out, outflow]
    rw [List.flatMap_append, List.filter_append, ← moves_flatten hans, List.flatMap_append,
      List.flatMap_singleton, List.flatMap_singleton, Event.moved, hmoved]
  have hassign : (s.estate c o).assignments = assignments := hplan.symm
  rw [← hassign] at hS
  have hperm := (hreach.lawful o).sol_payout hv hD hS hstep hsol hfinStep rfl
  rw [← hout, hassign] at hperm
  rw [hassign] at hS
  refine ⟨fun hfund => ?_, fun hshort => ?_, ?_⟩
  · rw [bequestPayouts_of_funded (by omega), show min v.keeperBounty (D - S) = v.keeperBounty by
      omega] at hperm
    exact hperm
  · rw [show D - S - v.keeperBounty = 0 by omega, sharePayouts_zero, List.nil_append] at hperm
    exact hperm
  · obtain ⟨hway, -⟩ := (hreach.lawful o).begin_underWay hv hstep
    have hrest := hway.sol_account hsol
    obtain ⟨hway₂, -⟩ := hway.sol_run hsol
    obtain ⟨l, hl, -⟩ := hway₂.log
    have hone := hfinStep.sol_account rfl (by simp) (by simp)
    have hsame : (s₁.estate c o).lamports = s.lamports (.vault o) := by
      obtain ⟨w, hb, -, -, -, -, -, heq⟩ := hstep.begin_eq rfl
      rw [heq]
      rfl
    rw [hout, List.flatMap_append, List.flatMap_singleton, payoutsOf_append, List.map_append,
      List.sum_append]
    rw [hsame] at hrest
    change (s₃.estate c o).lamports + _ = _
    rw [Nat.add_comm (List.sum _), ← Nat.add_assoc, hone]
    exact hrest

/-- On the sample vault, with the larger share paid last. -/
theorem sol_payout_specification_sample :
    let s₂ := Sample.begun.play Sample.cluster Sample.payouts
    let s₃ := s₂.cue Sample.cluster (.run (.finalizeExecution Sample.finalizeExecution))
    (outflow Sample.cluster Sample.owner .sol
      (Sample.begun.events Sample.cluster Sample.payouts ++
        [.executed (.finalizeExecution Sample.finalizeExecution) s₃.moved])).Perm
      [⟨Sample.alice, 295_889_916, .solShare 0⟩, ⟨Sample.bob, 197_259_944, .solShare 1⟩,
        ⟨Sample.bob, 500, .specificSol 0⟩, ⟨Sample.keeper, 1_000, .bounty⟩] := by
  intro s₂ s₃
  have hrun : Trace (fun t e t' => Step Sample.cluster t e t' ∧
      decide (t'.lamports Sample.vault ≤ t.lamports Sample.vault) = true) Sample.begun _ s₂ :=
    Sample.begun_reachable.sound.play (by decide +kernel)
  have hfin : exec Sample.cluster (.finalizeExecution Sample.finalizeExecution) s₂ = .ok s₃ :=
    exec_cue (by decide +kernel)
  have hpaid := (sol_payout_specification Sample.due_reachable rfl Sample.due_config Sample.due_plan
    rfl rfl Sample.due_begun
    (hrun.mono fun _ _ _ hstep => ⟨hstep.1, of_decide_eq_true hstep.2⟩)
    (by decide +kernel) rfl hfin).1 (by decide +kernel)
  exact hpaid.trans (.of_eq (by decide +kernel))

/-! ## The tokens of one mint -/

/-- Up to its first distribution of `m`, an execution pays no assignment of `m`. -/
theorem first_distribution {s₁ : World} {es : List Event} {m : Pubkey} (hm : m ≠ .default)
    {beneficiaries : List Beneficiary} {bounty snapshot : Nat} {assignments : List AssetAssignment}
    (hs : s₁.Sound c)
    (hway : (s₁.estate c o).UnderWay c o beneficiaries bounty snapshot assignments)
    (hU : (s₁.estate c o).Untaken m)
    (hrun : Trace (fun t e t' => Step c t e t' ∧ e.closes o = false ∧
      t.tokenDists (.tokenDist (.vault o) m) = none) s₁ es s) :
    (s.estate c o).UnderWay c o beneficiaries bounty snapshot assignments ∧
      (s.estate c o).Untaken m := by
  obtain ⟨actss, -, hacts⟩ := run_refines_side
    (T := fun E a E' => Estate.Step c o E a E' ∧ a.deed ≠ .close ∧ ∀ j, a.deed ≠ .specificAsset m j)
    (fun _ _ _ hstep => hstep.1) (fun t e t' acts hside hans hacts => by
      obtain ⟨-, hopen, hnone⟩ := hside
      refine (hacts.restrict fun a ha => ⟨hans.not_close hopen a ha, fun j hdeed => ?_⟩)
      -- The assignment would need the distribution that is not there.
      rw [hans.single ha (by simp [hdeed, Deed.batched])] at hacts
      obtain ⟨_, hone, -⟩ := Trace.cons_iff.mp hacts
      obtain ⟨d, hd⟩ := hone.specificAsset_dist hdeed
      rw [show (t.estate c o).dists m = none from hnone] at hd
      cases hd)
    hs hrun
  exact hacts.preserves
    (P := fun E => E.UnderWay c o beneficiaries bounty snapshot assignments ∧ E.Untaken m)
    (fun E a E' hE hstep => ⟨hE.1.step hstep.1 hstep.2.1,
      hE.2.step hE.1 hm hstep.1 hstep.2.1 hstep.2.2⟩) ⟨hway, hU⟩

/-- **Token payouts.** Let `bal` be the balance of the canonical account for `m` and
    `S` the sum of the assignments of `m` when the first distribution of `m` in an
    execution begins. In every order of its steps, before and after the finalize, by
    whichever callers and with whatever failures in between, what leaves the account
    up to the close of the distribution is: every share of `bal - S`, every
    assignment in full, when `bal` reaches for them, whatever is deposited meanwhile;
    otherwise, and without deposits, no share and the assignments in ascending order
    as far as `bal` reaches; and in both cases all that is left, to the beneficiary
    with the largest share. -/
theorem token_payout_specification {ctx : BeginExecution} {dist : BeginTokenDist}
    {close : CloseTokenDist} {v : VaultConfig} {s₁ s₂ s₃ s₄ s₅ : World} {es es' : List Event}
    {assignments : List AssetAssignment} {m : Pubkey} {bal S : Nat} (hreach : Reachable c s)
    (ho : ctx.vaultConfig = .vault o) (hv : s.vaultConfigs (.vault o) = some v)
    (hwallets : ∀ b ∈ v.beneficiaries, b.wallet ≠ .vault o)
    (hplan : assignments = (s.assetPlans (.assetPlan (.vault o))).elim [] (·.assignments))
    (hbegin : exec c (.beginExecution ctx) s = .ok s₁)
    (hfirst : Trace (fun t e t' => Step c t e t' ∧ e.closes o = false ∧
      t.tokenDists (.tokenDist (.vault o) m) = none) s₁ es s₂)
    (ho' : dist.vaultConfig = .vault o) (hm : dist.mint = m)
    (hdist : exec c (.beginTokenDist dist) s₂ = .ok s₃)
    (hbal : bal = s₂.tokenAmounts (canonicalAta c (.vault o) m))
    (hS : S = bequeathed assignments m) (hrun : Trace (Step c) s₃ es' s₄)
    (hopen : ∀ e ∈ es', e.closes o = false ∧ e.closesDist o m = false)
    (ho'' : close.vaultConfig = .vault o) (hm' : close.mint = m)
    (hclose : exec c (.closeTokenDist close) s₄ = .ok s₅) :
    let out := outflow c o (.token m) (es' ++ [.executed (.closeTokenDist close) s₅.moved])
    let left := s₄.tokenAmounts (canonicalAta c (.vault o) m)
    ∃ b, v.beneficiaries[largestShareIndex v.beneficiaries]? = some b ∧
      (∀ b' ∈ v.beneficiaries, b'.shareBps ≤ b.shareBps) ∧
      (S ≤ bal → out.Perm
        (sharePayouts v.beneficiaries .tokenShare (bal - S) ++
          bequestPayouts v.beneficiaries assignments .specificAsset (bequest assignments m) ++
          Payout.made ⟨b.wallet, left, .tokenDust⟩)) ∧
      (bal < S →
        Trace (fun t e t' => Step c t e t' ∧ t'.tokenAmounts (canonicalAta c (.vault o) m) ≤
          t.tokenAmounts (canonicalAta c (.vault o) m)) s₃ es' s₄ →
        out.Perm
          (bequestPayouts v.beneficiaries assignments .specificAsset (granted assignments m bal) ++
            Payout.made ⟨b.wallet, left, .tokenDust⟩)) ∧
      s₅.tokenAmounts (canonicalAta c (.vault o) m) = 0 := by
  intro out left
  subst hm
  have hreach₁ : Reachable c s₁ := hreach.step (.executed hbegin)
  have hreach₂ := hreach₁.trace (hfirst.mono fun _ _ _ hstep => hstep.1)
  have hreach₃ : Reachable c s₃ := hreach₂.step (.executed hdist)
  have hsound₄ := (hreach₃.trace hrun).sound
  obtain ⟨hway₁, hpool⟩ := (hreach.lawful o).begin_underWay hv (begin_step hreach.sound ho hbegin)
  have hU₁ : (s₁.estate c o).Untaken dist.mint := fun j _ =>
    congrFun (congrArg Pot.Pool.paidBequest hpool) j
  obtain ⟨_, hdistStep, hnil⟩ := Trace.cons_iff.mp
    (beginTokenDist_performs ho' hreach₂.sound.regular.fresh hdist).run
  obtain rfl := Trace.nil_iff.mp hnil
  obtain ⟨moves, hlast⟩ := closeTokenDist_performs ho'' hsound₄.regular.fresh hclose
  obtain ⟨_, hcloseStep, hnil⟩ := Trace.cons_iff.mp hlast.run
  obtain rfl := Trace.nil_iff.mp hnil
  rw [hm'] at hcloseStep
  have hdefault := hdistStep.beginDist_mint rfl
  obtain ⟨hway₂, hU₂⟩ := first_distribution hdefault hreach₁.sound hway₁ hU₁ hfirst
  have hassign : (s.estate c o).assignments = assignments := hplan.symm
  rw [hassign] at hway₂
  obtain ⟨b, hb, hmax⟩ := largestShareIndex_spec ((hreach.lawful o).accepted v hv).1.count.1
  -- Either regime is one run of the pot, with the deposits that it allows.
  have key : ∀ actss, List.Forall₂ (Answers c o) es' actss →
      Trace (Estate.TokenStep c o dist.mint (S ≤ bal)) (s₃.estate c o) actss.flatten
        (s₄.estate c o) →
      out.Perm (sharePayouts v.beneficiaries .tokenShare (bal - S) ++
        bequestPayouts v.beneficiaries assignments .specificAsset
          (granted assignments dist.mint bal) ++ Payout.made ⟨b.wallet, left, .tokenDust⟩) := by
    intro actss hans hacts
    have hout : out = payoutsOf (.token dist.mint)
        ((actss.flatten ++ [Act.mk (.closeDist dist.mint) moves]).flatMap Act.moves) := by
      have hmoved : s₅.moved.filter (Movement.leaves c o) = moves := by
        simpa using hlast.moved
      simp only [out, outflow]
      rw [List.flatMap_append, List.filter_append, ← moves_flatten hans, List.flatMap_append,
        List.flatMap_singleton, List.flatMap_singleton, Event.moved, hmoved]
    obtain ⟨b', hb', hperm⟩ := hway₂.token_payout (hreach₂.paidUp o) hU₂ hwallets hbal hS hdistStep
      hacts hcloseStep rfl
    obtain rfl : b = b' := by simpa [hb] using hb'
    rw [hout]
    exact hperm
  have hends : ∀ actss, List.Forall₂ (Answers c o) es' actss →
      ∀ a ∈ actss.flatten, a.deed ≠ .close ∧ a.deed ≠ .closeDist dist.mint := fun _ hans =>
    forall_acts hans fun e he acts hacts a ha =>
      ⟨hacts.not_close (hopen e he).1 a ha, hacts.not_closeDist (hopen e he).2 a ha⟩
  refine ⟨b, hb, hmax, fun hfund => ?_, fun hshort hquiet => ?_, hcloseStep.closeDist_holding rfl⟩
  · obtain ⟨actss, hans, hacts⟩ := run_refines hreach₃.sound hrun o
    rw [← bequestPayouts_of_funded (hS ▸ hfund)]
    exact key actss hans ((hacts.restrict (hends actss hans)).mono fun _ _ _ hstep =>
      ⟨hstep.1, hstep.2.1, hstep.2.2, .inl hfund⟩)
  · obtain ⟨actss, hans, hacts⟩ := run_refines_side (fun _ _ _ hstep => hstep.1)
      (fun _ _ _ _ hstep hans hacts => hans.quiet (x := fun E => E.holding dist.mint) hacts hstep.2)
      hreach₃.sound hquiet
    have hperm := key actss hans ((hacts.restrict (hends actss hans)).mono fun _ _ _ hstep =>
      ⟨hstep.1.1, hstep.2.1, hstep.2.2, .inr hstep.1.2⟩)
    rw [show bal - S = 0 by omega, sharePayouts_zero, List.nil_append] at hperm
    exact hperm

/-- On the sample vault, with shares before and after the finalize. -/
theorem token_payout_specification_sample :
    let s₂ := Sample.begun.play Sample.cluster [Sample.executeSolShares [Sample.bob] [1]]
    let s₃ := s₂.cue Sample.cluster (.run (.beginTokenDist Sample.beginTokenDist))
    let s₄ := s₃.play Sample.cluster Sample.tokenPayouts
    let s₅ := s₄.cue Sample.cluster (.run (.closeTokenDist Sample.closeTokenDist))
    (outflow Sample.cluster Sample.owner (.token Sample.gold)
      (s₃.events Sample.cluster Sample.tokenPayouts ++
        [.executed (.closeTokenDist Sample.closeTokenDist) s₅.moved])).Perm
      [⟨Sample.alice, 42, .tokenShare 0⟩, ⟨Sample.bob, 28, .tokenShare 1⟩,
        ⟨Sample.alice, 30, .specificAsset 1⟩, ⟨Sample.alice, 1, .tokenDust⟩] := by
  intro s₂ s₃ s₄ s₅
  have hfirst : Trace (fun t e t' => Step Sample.cluster t e t' ∧ (!e.closes Sample.owner &&
      (t.tokenDists (.tokenDist Sample.vault Sample.gold)).isNone) = true) Sample.begun _ s₂ :=
    Sample.begun_reachable.sound.play (by decide +kernel)
  have hreach₂ := Sample.begun_reachable.trace (hfirst.mono fun _ _ _ hstep => hstep.1)
  have hdist : exec Sample.cluster (.beginTokenDist Sample.beginTokenDist) s₂ = .ok s₃ :=
    exec_cue (by decide +kernel)
  have hrun : Trace (fun t e t' => Step Sample.cluster t e t' ∧ noCheck t e t' = true) s₃ _ s₄ :=
    (hreach₂.step (.executed hdist)).sound.play (by decide +kernel)
  have hclose : exec Sample.cluster (.closeTokenDist Sample.closeTokenDist) s₄ = .ok s₅ :=
    exec_cue (by decide +kernel)
  obtain ⟨b, hb, -, hfunded, -⟩ := token_payout_specification Sample.due_reachable rfl
    Sample.due_config (by decide +kernel) Sample.due_plan Sample.due_begun
    (hfirst.mono fun t e _ hstep => by
      have hside : e.closes Sample.owner = false ∧
          t.tokenDists (.tokenDist Sample.vault Sample.gold) = none := by simpa using hstep.2
      exact ⟨hstep.1, hside⟩) rfl rfl hdist rfl rfl
    (hrun.mono fun _ _ _ hstep => hstep.1) (by decide +kernel) rfl rfl hclose
  obtain rfl : b = ⟨Sample.alice, 6_000⟩ := Option.some.inj (hb.symm.trans (by decide +kernel))
  exact (hfunded (by decide +kernel)).trans (.of_eq (by decide +kernel))

end DeadMansVault
